import CommitMarking.Runner
import CommitMarking.Suite.Case
import CommitMarking.Suite.Reading
import CommitMarking.Text.Columns

namespace CommitMarking

open Text

inductive EmptySuite
  | pass
  | fail
  deriving DecidableEq, Repr

structure Testing where
  timeout : Nat
  suites : List String
  host : List String
  emptySuite : EmptySuite
  deriving DecidableEq, Repr

inductive SuiteOutcome
  | completed (cases : List CaseOutcome)
  | failed (exitCode : Int) (stderr : String)
  | timeout
  | exception (message : String)
  deriving DecidableEq, Repr

namespace SuiteOutcome

def lastLine? (s : String) : Option String := (Text.lines s).reverse.find? (!Text.blank ·)

/-- The report of a host is the last line of what it printed that is not blank. -/
def ofOutput (suite stdout : String) : SuiteOutcome :=
  match lastLine? stdout with
  | none => exception "suite host printed no report"
  | some line =>
      match SuiteReport.read? line with
      | none => exception "undecodable suite report: the line is no report"
      | some report =>
          if report.suite = suite then completed report.cases
          else exception ("suite host reported suite " ++ report.suite ++ " instead of " ++ suite)

def ofExecution (suite : String) (e : Execution) : SuiteOutcome :=
  match e.exitCode with
  | none => timeout
  | some code => if code = 0 then ofOutput suite e.stdoutText else failed code e.stderrText

def passed (policy : EmptySuite) : SuiteOutcome → Bool
  | completed [] => policy = .pass
  | completed cases => cases.all CaseOutcome.passed
  | _ => false

def failedRow (name : String) (width : Nat) : String := line name '.' "FAILED" width ++ "\n"

def caseRow (width : Nat) (c : CaseOutcome) : String :=
  match c.failure with
  | none => ""
  | some message => failedRow c.name width ++ message ++ "\n"

def countRow (cases : List CaseOutcome) : String :=
  Decimal.ofNat (cases.countP CaseOutcome.passed) ++ " / " ++ Decimal.ofNat cases.length ++
    " tests passed.\n"

def text (width : Nat) (suite : String) : SuiteOutcome → String
  | completed cases =>
      (if cases = [] then suite ++ ": (no test cases found)\n" else "") ++
        String.join (cases.map (caseRow width)) ++ countRow cases
  | failed code stderr =>
      failedRow suite width ++ "(exit status " ++ Decimal.ofInt code ++ ")\n" ++ stderr
  | timeout => failedRow suite width ++ "(timeout)\n"
  | exception message => failedRow suite width ++ message ++ "\n"

end SuiteOutcome

namespace Testing

def standard : Testing where
  timeout := 60000
  suites := []
  host := []
  emptySuite := .pass

def runSuite (t : Testing) (m : Machine) (dir : Location) (suite : String) :
    StateM World (String × SuiteOutcome) := do
  let command := t.host ++ [suite, dir.text]
  match ← (m.execute (.ok dir) t.timeout command).run with
  | .ok e => return (suite, .ofExecution suite e)
  | .error e => return (suite, .exception e.message)

/-- No suites at all are judged like a suite without cases. -/
def holds (t : Testing) : List (String × SuiteOutcome) → Bool
  | [] => t.emptySuite = .pass
  | outcomes => outcomes.all (·.2.passed t.emptySuite)

def provenance (outcomes : List (String × SuiteOutcome)) (width : Nat) : String :=
  heading "Test" width ++ (if outcomes = [] then "(no test suites configured)\n" else "") ++
    String.join (outcomes.map fun o => o.2.text width o.1)

def test (t : Testing) (m : Machine) (dir : Location) : StateM World Verdict := do
  let outcomes ← t.suites.mapM (t.runSuite m dir)
  return ⟨t.holds outcomes, provenance outcomes⟩

def runner (t : Testing) : Runner .bool where
  name := "Test"
  run m _ dir := Evaluation.ofVerdict <$> ExceptT.lift (t.test m dir)

end Testing

end CommitMarking
