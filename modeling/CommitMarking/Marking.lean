import CommitMarking.Eval

namespace CommitMarking

structure Report where
  commit : Commit
  outcome : Except MarkError (Evaluation .int)

namespace Report

def mark (r : Report) : Option Int64 :=
  match r.outcome with
  | .ok e => some e.value
  | .error _ => none

def total (reports : List Report) : Int64 := (reports.filterMap mark).sum

def countFailed (reports : List Report) : Nat := reports.countP fun r => r.mark.isNone

end Report

/-- Marks a commit with nothing bound. An error ends the evaluation of this commit alone. -/
def Expr.markOne (m : Machine) (e : Expr .int) (commit : Commit) : StateM World Report := do
  return ⟨commit, ← (e.apply m commit .empty).run⟩

def Expr.markAll (m : Machine) (e : Expr .int) (commits : List Commit) :
    StateM World (List Report) := commits.mapM (e.markOne m)

def Expr.markLast (m : Machine) (e : Expr .int) (commits : List Commit) :
    StateM World (List Report) := e.markAll m commits.getLast?.toList

namespace Report

open Text

def markText (r : Report) : String :=
  match r.mark with
  | some mark => Decimal.ofInt mark.toInt ++ " marks"
  | none => "ERROR"

def rowText (r : Report) : String :=
  match r.mark with
  | some mark => "[" ++ Decimal.ofInt mark.toInt ++ " marks]"
  | none => "[error]"

def timeText (time : Option Stamp) : String :=
  match time with
  | some stamp => stamp.text ++ "\n"
  | none => ""

def outcomeText (width : Nat) : Except MarkError (Evaluation .int) → String
  | .ok e => e.account.summary width ++ "\n\n" ++ e.account.provenance width
  | .error error => "evaluation aborted: " ++ error.message ++ "\n"

def text (width index : Nat) (r : Report) : String :=
  "\n\n" ++ rule '=' width ++ "\n" ++
    line ("COMMIT#" ++ Decimal.ofNat index ++ ": " ++ r.commit.id) ' ' r.markText width ++ "\n" ++
    rule '=' width ++ "\n\"" ++ r.commit.title ++ "\"\n" ++ timeText r.commit.time ++ "\n" ++
    outcomeText width r.outcome

def row (width : Nat) (r : Report) : String := line r.commit.id '.' r.rowText width ++ "\n"

def summary (width : Nat) (reports : List Report) : String :=
  rule '-' width ++ "\nSummary\n" ++ rule '-' width ++ "\n" ++
    String.join (reports.map (row width)) ++ rule '-' width ++ "\nGitMark Total: " ++
    Decimal.ofInt (total reports).toInt ++ "\n"

def texts (width : Nat) : Nat → List Report → List String
  | _, [] => []
  | index, r :: rs => r.text width index :: texts width (index + 1) rs

end Report

end CommitMarking
