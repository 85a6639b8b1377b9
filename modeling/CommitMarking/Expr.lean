import CommitMarking.Runner
import CommitMarking.Scope

namespace CommitMarking

inductive Comparison
  | less
  | greater
  deriving DecidableEq, Repr

namespace Comparison

def symbol : Comparison → String
  | less => "<"
  | greater => ">"

def holds : Comparison → Int64 → Int64 → Bool
  | less, a, b => a < b
  | greater, a, b => b < a

def text (op : Comparison) (lhs rhs : String) : String := lhs ++ " " ++ op.symbol ++ " " ++ rhs

end Comparison

mutual

/-- Marking expressions by the kind of their value. A leaf leaves its name in the trace and ends as
it is told; a container runs what its generator makes in a directory of its own. -/
inductive Expr : Kind → Type
  | int (n : Int64) : Expr .int
  | size : Expr .int
  | div (lhs rhs : Expr .int) : Expr .int
  | abs (inner : Expr .int) : Expr .int
  | first : Expr .bool
  | compare (op : Comparison) (lhs rhs : Expr .int) : Expr .bool
  | and (lhs rhs : Expr .bool) : Expr .bool
  | var (k : Kind) (name : String) : Expr k
  | letIn {i k : Kind} (name : String) (init : Expr i) (body : Expr k) : Expr k
  | cond {k : Kind} (condition : Expr .bool) (yes no : Expr k) : Expr k
  | leaf {k : Kind} (name : String) (ending : Except MarkError (Evaluation k)) : Expr k
  | container {k : Kind} (generator : Generator k) : Expr k

/-- Makes a task for a directory. All parts of a generator make their tasks before any of them is
applied. -/
inductive Generator : Kind → Type
  | task {k : Kind} (name : String) (expr : Expr k) : Generator k
  | refuse {k : Kind} (name : String) (error : MarkError) : Generator k
  | runner {k : Kind} (r : Runner k) : Generator k
  | andAll (lhs rhs : Generator .bool) : Generator .bool

end

mutual

def Expr.AllRunners (p : {k : Kind} → Runner k → Prop) : {k : Kind} → Expr k → Prop
  | _, .int _ | _, .size | _, .first | _, .var _ _ | _, .leaf _ _ => True
  | _, .div lhs rhs | _, .compare _ lhs rhs => lhs.AllRunners p ∧ rhs.AllRunners p
  | _, .and lhs rhs => lhs.AllRunners p ∧ rhs.AllRunners p
  | _, .abs inner => inner.AllRunners p
  | _, .letIn _ init body => init.AllRunners p ∧ body.AllRunners p
  | _, .cond condition yes no => condition.AllRunners p ∧ yes.AllRunners p ∧ no.AllRunners p
  | _, .container g => g.AllRunners p

def Generator.AllRunners (p : {k : Kind} → Runner k → Prop) : {k : Kind} → Generator k → Prop
  | _, .task _ expr => expr.AllRunners p
  | _, .refuse _ _ => True
  | _, .runner r => p r
  | _, .andAll lhs rhs => lhs.AllRunners p ∧ rhs.AllRunners p

end

def joinAnd (lhs rhs : String) : String := lhs ++ " && " ++ rhs

def Generator.name {k : Kind} : Generator k → String
  | .task name _ => name
  | .refuse name _ => name
  | .runner r => r.name
  | .andAll lhs rhs => joinAnd lhs.name rhs.name

def Expr.name : {k : Kind} → Expr k → String
  | _, .int n => Text.Decimal.ofInt n.toInt
  | _, .size => "Commit Size"
  | _, .div lhs rhs => lhs.name ++ " / " ++ rhs.name
  | _, .abs inner => "abs(" ++ inner.name ++ ")"
  | _, .first => "First commit"
  | _, .compare op lhs rhs => op.text lhs.name rhs.name
  | _, .and lhs rhs => joinAnd lhs.name rhs.name
  | _, .var _ name => name
  | _, .letIn name init body => "let " ++ name ++ " = " ++ init.name ++ " in " ++ body.name
  | _, .cond condition _ _ => "if " ++ condition.name
  | _, .leaf name _ => name
  | _, .container g => g.name

def Generator.taskName {k : Kind} : Generator k → String
  | .task _ expr => expr.name
  | .refuse name _ => name
  | .runner r => r.name
  | .andAll lhs rhs => joinAnd lhs.taskName rhs.taskName

end CommitMarking
