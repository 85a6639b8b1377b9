import CommitMarking.Text.Decimal

namespace CommitMarking

inductive Kind
  | int
  | bool
  deriving DecidableEq, Repr

abbrev Kind.Carrier : Kind → Type
  | .int => Int64
  | .bool => Bool

def Kind.text : Kind → String
  | .int => "an integer"
  | .bool => "a boolean"

inductive Value
  | int (n : Int64)
  | bool (b : Bool)
  deriving DecidableEq, Repr

namespace Value

def kind : Value → Kind
  | int _ => .int
  | bool _ => .bool

def of : (k : Kind) → k.Carrier → Value
  | .int, n => int n
  | .bool, b => bool b

def as? : (k : Kind) → Value → Option k.Carrier
  | .int, int n => some n
  | .bool, bool b => some b
  | .int, bool _ => none
  | .bool, int _ => none

def text : Value → String
  | int n => Text.Decimal.ofInt n.toInt
  | bool true => "true"
  | bool false => "false"

@[simp] theorem kind_of (k : Kind) (v : k.Carrier) : (of k v).kind = k := by
  cases k <;> rfl

@[simp] theorem as?_of (k : Kind) (v : k.Carrier) : as? k (of k v) = some v := by
  cases k <;> rfl

theorem exists_eq_of (value : Value) : ∃ v, value = of value.kind v := by
  cases value <;> exact ⟨_, rfl⟩

theorem as?_eq_some_iff {k : Kind} {value : Value} {v : k.Carrier} :
    as? k value = some v ↔ value = of k v := by
  cases k <;> cases value <;> simp [as?, of]

theorem as?_eq_none_iff (k : Kind) (v : Value) : as? k v = none ↔ v.kind ≠ k := by
  cases k <;> cases v <;> simp [as?, kind]

end Value

end CommitMarking
