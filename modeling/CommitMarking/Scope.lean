import CommitMarking.Error

namespace CommitMarking

/-- A chain of bindings, innermost first. -/
structure Scope where
  bindings : List (String × Value)
  deriving DecidableEq, Repr

namespace Scope

def empty : Scope := ⟨[]⟩

def bind (scope : Scope) (name : String) (value : Value) : Scope :=
  ⟨(name, value) :: scope.bindings⟩

def lookup (scope : Scope) (name : String) : Option Value := scope.bindings.lookup name

def get (scope : Scope) (k : Kind) (name : String) : Except MarkError k.Carrier :=
  match scope.lookup name with
  | none => .error (.unboundVariable name)
  | some value =>
      match value.as? k with
      | some v => .ok v
      | none => .error (.typeMismatch name k)

@[simp] theorem lookup_empty (name : String) : empty.lookup name = none := rfl

theorem lookup_bind (scope : Scope) (name other : String) (value : Value) :
    (scope.bind name value).lookup other =
      if other = name then some value else scope.lookup other := by
  by_cases h : other = name
  · simp [lookup, bind, h]
  · simp [lookup, bind, List.lookup_cons, beq_false_of_ne h, h]

end Scope

end CommitMarking
