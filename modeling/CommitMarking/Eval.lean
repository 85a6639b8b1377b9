import CommitMarking.Expr

namespace CommitMarking

/-- Truncates toward zero. The quotient is out of range for one pair of numbers only. -/
def divide (task : String) (a b : Int64) : Except MarkError Int64 :=
  if b = 0 then .error (.arithmetic (.divisionByZero task))
  else if a = Int64.minValue ∧ b = -1 then .error (.arithmetic (.overflow task))
  else .ok (a / b)

def absolute (task : String) (a : Int64) : Except MarkError Int64 :=
  if a = Int64.minValue then .error (.arithmetic (.overflow task))
  else .ok (if a < 0 then -a else a)

namespace Commit

def changes (c : Commit) : List Entry := c.entries.filter Entry.changed

def changedSize (c : Commit) : Int64 := (c.changes.map Entry.size).sum

def sizeRow (width : Nat) (left right : String) : String := Text.line left ' ' right width ++ "\n"

def sizeProvenance (c : Commit) (width : Nat) : String :=
  Text.heading "Commit size" width ++
    String.join (c.changes.map fun e => sizeRow width e.path (Entry.sizeText e.size)) ++
    sizeRow width "" ("= " ++ Text.Decimal.ofInt c.changedSize.toInt ++ " bytes")

def sizeAccount (c : Commit) : Account :=
  .leaf (fun _ => "Commit size: " ++ Text.Decimal.ofInt c.changedSize.toInt ++ " bytes")
    c.sizeProvenance

end Commit

namespace Evaluation

def constant (n : Int64) : Evaluation .int :=
  ⟨n, .line ("= " ++ Text.Decimal.ofInt n.toInt ++ " mark(s).")⟩

def compare (op : Comparison) (l r : Evaluation .int) : Evaluation .bool :=
  ⟨op.holds l.value r.value,
    .operation (op.text (Text.Decimal.ofInt l.value.toInt) (Text.Decimal.ofInt r.value.toInt))
      l.account r.account⟩

def quotient (task : String) (l r : Evaluation .int) : Except MarkError (Evaluation .int) := do
  let value ← divide task l.value r.value
  return ⟨value,
    .operation (task ++ " = " ++ Text.Decimal.ofInt value.toInt) l.account r.account⟩

def absolute (task : String) (inner : Evaluation .int) : Except MarkError (Evaluation .int) := do
  let value ← CommitMarking.absolute task inner.value
  return ⟨value, inner.account ++ .line ("abs(...) = " ++ Text.Decimal.ofInt value.toInt)⟩

def inBinding {i k : Kind} (name : String) (init : Evaluation i) (body : Evaluation k) :
    Evaluation k :=
  ⟨body.value,
    .binding (name ++ " = " ++ (Value.of i init.value).text ++ " in") init.account body.account⟩

def afterCondition {k : Kind} (name : String) (condition : Evaluation .bool)
    (branch : Evaluation k) : Evaluation k :=
  ⟨branch.value, condition.account ++ .answer name condition.value ++ branch.account⟩

end Evaluation

namespace Act

def branch {k : Kind} (name : String) (condition : Act MarkError (Evaluation .bool))
    (yes no : Act MarkError (Evaluation k)) : Act MarkError (Evaluation k) := do
  let c ← condition
  match c.value with
  | true => return .afterCondition name c (← yes)
  | false => return .afterCondition name c (← no)

def conjoin (lname rname : String) (lhs rhs : Act MarkError (Evaluation .bool)) :
    Act MarkError (Evaluation .bool) := do
  let l ← lhs
  let account := l.account ++ .answer lname l.value
  match l.value with
  | false => return ⟨false, account⟩
  | true =>
      let r ← rhs
      return ⟨r.value, account ++ r.account ++ .answer rname r.value⟩

def leaf {α : Type} (name : String) (ending : Except MarkError α) : Act MarkError α := do
  World.record name
  Act.lift ending

end Act

def Generator.prepare (m : Machine) (dir : Location) {k : Kind} : Generator k → Act MarkError Unit
  | .task _ _ => pure ()
  | .refuse name error => Act.leaf name (.error error)
  | .runner r => r.prepare m dir
  | .andAll lhs rhs => do
      lhs.prepare m dir
      rhs.prepare m dir

mutual

/-- Evaluates an expression for a commit, operands from left to right. -/
def Expr.apply (m : Machine) (commit : Commit) :
    {k : Kind} → Expr k → Scope → Act MarkError (Evaluation k)
  | _, .int n, _ => return .constant n
  | _, .size, _ => return ⟨commit.changedSize, commit.sizeAccount⟩
  | _, .div lhs rhs, scope => do
      let l ← lhs.apply m commit scope
      let r ← rhs.apply m commit scope
      Act.lift (l.quotient (Expr.div lhs rhs).name r)
  | _, .abs inner, scope => do
      let e ← inner.apply m commit scope
      Act.lift (e.absolute (Expr.abs inner).name)
  | _, .first, _ => return ⟨commit.isFirst, .nothing⟩
  | _, .compare op lhs rhs, scope => do
      let l ← lhs.apply m commit scope
      let r ← rhs.apply m commit scope
      return .compare op l r
  | _, .and lhs rhs, scope =>
      Act.conjoin lhs.name rhs.name (lhs.apply m commit scope) (rhs.apply m commit scope)
  | _, .var k name, scope => do
      let value ← Act.lift (scope.get k name)
      return ⟨value, .line name⟩
  | _, .letIn name init body, scope => do
      let i ← init.apply m commit scope
      let b ← body.apply m commit (scope.bind name (.of _ i.value))
      return .inBinding name i b
  | _, .cond condition yes no, scope =>
      Act.branch condition.name (condition.apply m commit scope) (yes.apply m commit scope)
        (no.apply m commit scope)
  | _, .leaf name ending, _ => Act.leaf name ending
  | _, .container g, scope =>
      World.inScratch m.scratch fun dir => do
        g.prepare m dir
        g.apply m commit scope dir

def Generator.apply (m : Machine) (commit : Commit) :
    {k : Kind} → Generator k → Scope → Location → Act MarkError (Evaluation k)
  | _, .task _ expr, scope, _ => expr.apply m commit scope
  | _, .refuse _ error, _, _ => throw error
  | _, .runner r, _, dir => r.run m commit dir
  | _, .andAll lhs rhs, scope, dir =>
      Act.conjoin lhs.taskName rhs.taskName (lhs.apply m commit scope dir)
        (rhs.apply m commit scope dir)

end

end CommitMarking
