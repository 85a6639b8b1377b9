import CommitMarking.Checkout
import CommitMarking.Program
import CommitMarking.Runner
import CommitMarking.Text.Columns

namespace CommitMarking

open Text

structure Compiler where
  name : String
  program : String
  flags : List String
  extensions : List String
  classpath : List String
  classpathFlag : String
  outputFlag : String
  timeout : Nat
  deriving DecidableEq, Repr

namespace Compiler

def standard : Compiler where
  name := "Java Build"
  program := "javac"
  flags := ["-nowarn"]
  extensions := [".java"]
  classpath := []
  classpathFlag := "-cp"
  outputFlag := "-d"
  timeout := 10000

def endsWith (path suffix : String) : Bool := suffix.toList.isSuffixOf path.toList

def accepts (c : Compiler) (e : Entry) : Bool := c.extensions.any (endsWith e.path)

def command (c : Compiler) (dir : String) (files : List String) : List String :=
  c.program :: c.flags ++
  (if c.classpath ≠ [] ∧ c.classpathFlag ≠ "" then
    [c.classpathFlag, ":".intercalate c.classpath] else []) ++
  (if c.outputFlag ≠ "" then [c.outputFlag, dir] else []) ++ files

def provenance (c : Compiler) (e : Execution) (width : Nat) : String :=
  heading c.name width ++ (if e.timedOut then "(timeout)\n" else "") ++ e.stdoutText ++ e.stderrText

def build (c : Compiler) (m : Machine) (commit : Commit) (dir : Location) :
    Act ProcessError Verdict := do
  let files ← checkout dir c.accepts commit.entries
  let execution ← m.execute (.ok dir) c.timeout (c.command dir.text files)
  return ⟨execution.succeeded, c.provenance execution⟩

def runner (c : Compiler) : Runner .bool where
  name := "Build"
  run m commit dir := Evaluation.ofVerdict <$> (c.build m commit dir).mapError .process

end Compiler

end CommitMarking
