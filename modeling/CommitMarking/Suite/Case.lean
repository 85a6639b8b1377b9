import CommitMarking.Program
import CommitMarking.Suite.Report
import CommitMarking.Text.Blank

namespace CommitMarking

/-- How a check ended; a panic may carry no text. -/
inductive CheckResult
  | passed
  | failed (message : String)
  | panicked (message : Option String)
  deriving DecidableEq, Repr

inductive CaseBody
  | check (run : FileTree → Place → CheckResult)
  | command (command : List String) (timeout : Nat)

structure TestCase where
  name : String
  body : CaseBody

def CheckResult.failure : CheckResult → Option String
  | passed => none
  | failed message => some message
  | panicked message => some ("panicked: " ++ message.getD "unknown panic payload")

namespace TestCase

def exitFailure (program : String) (timeout : Nat) : Option Int → Option String
  | some code =>
      if code = 0 then none
      else some (program ++ " exited with status " ++ Text.Decimal.ofInt code)
  | none => some (program ++ " timed out after " ++ Text.Decimal.ofNat timeout ++ " ms")

def executionFailure (program : String) (timeout : Nat) (e : Execution) : Option String :=
  (exitFailure program timeout e.exitCode).map fun message =>
    if Text.blank e.stderrText then message else message ++ "\n" ++ Text.trimEnd e.stderrText

/-- The failure of a command and the milliseconds it took. It goes down with the host of its suite. -/
def runCommand (m : Machine) (place : Place) (timeout : Nat) (command : List String) :
    StateM World (Option String × Nat) := do
  let program := command.headD "command"
  match ← (m.executeWith .inherit place timeout command).run with
  | .ok e => return (executionFailure program timeout e, e.duration)
  | .error e => return (some ("failed to start " ++ program ++ ": " ++ e.message), 0)

def runBody (m : Machine) (place : Place) : CaseBody → StateM World (Option String × Nat)
  | .check run => return ((run (← get).files place).failure, 0)
  | .command command timeout => runCommand m place timeout command

def run (m : Machine) (place : Place) (c : TestCase) : StateM World (CaseOutcome × Nat) := do
  let (failure, elapsed) ← runBody m place c.body
  return (⟨c.name, failure⟩, elapsed)

end TestCase

structure TestSuite where
  name : String
  cases : List TestCase

namespace TestSuite

def ofCases (name : String) (cases : List TestCase) : TestSuite :=
  ⟨name, cases.mergeSort fun a b => decide (a.name ≤ b.name)⟩

def run (m : Machine) (place : Place) (s : TestSuite) : StateM World SuiteReport := do
  return ⟨s.name, (← s.cases.mapM (TestCase.run m place)).map (·.1)⟩

/-- Runs cases for `limit` milliseconds. No case starts after that, and no report comes of it. -/
def runCasesWithin (m : Machine) (place : Place) :
    Nat → List TestCase → StateM World (Option (List CaseOutcome))
  | _, [] => return some []
  | limit, c :: cs => do
      let (outcome, elapsed) ← c.run m place
      if limit ≤ elapsed then return none
      return (← runCasesWithin m place (limit - elapsed) cs).map (outcome :: ·)

def runWithin (m : Machine) (place : Place) (limit : Nat) (s : TestSuite) :
    StateM World (Option SuiteReport) := do
  return (← runCasesWithin m place limit s.cases).map (⟨s.name, ·⟩)

end TestSuite

/-- Suites by name. The one registered last under a name counts. -/
structure Registry where
  suites : List TestSuite

namespace Registry

def empty : Registry := ⟨[]⟩

def register (r : Registry) (s : TestSuite) : Registry := ⟨s :: r.suites⟩

def ofSuites (suites : List TestSuite) : Registry := suites.foldl register empty

def get? (r : Registry) (name : String) : Option TestSuite := r.suites.find? (·.name = name)

end Registry

end CommitMarking
