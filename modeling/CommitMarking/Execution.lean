import CommitMarking.Commit
import CommitMarking.Text.Utf8

namespace CommitMarking

/-- How a process ended: its exit code, or none if it was stopped for taking too long, all it wrote,
and the milliseconds that it took. -/
structure Execution where
  exitCode : Option Int
  stdout : Bytes
  stderr : Bytes
  duration : Nat
  deriving DecidableEq, Repr

namespace Execution

def timedOut (e : Execution) : Bool := e.exitCode.isNone

def succeeded (e : Execution) : Bool := e.exitCode = some 0

def stdoutText (e : Execution) : String := Text.Utf8.lossy e.stdout

def stderrText (e : Execution) : String := Text.Utf8.lossy e.stderr

end Execution

end CommitMarking
