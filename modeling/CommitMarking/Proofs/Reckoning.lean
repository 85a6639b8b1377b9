import CommitMarking.Proofs.Arithmetic
import CommitMarking.Proofs.WellScoped

namespace CommitMarking

abbrev Kind.Ideal : Kind → Type
  | .int => Int
  | .bool => Bool

inductive Ideal
  | int (n : Int)
  | bool (b : Bool)
  deriving DecidableEq, Repr

namespace Ideal

def of : (k : Kind) → k.Ideal → Ideal
  | .int, n => int n
  | .bool, b => bool b

def as? : (k : Kind) → Ideal → Option k.Ideal
  | .int, int n => some n
  | .bool, bool b => some b
  | .int, bool _ => none
  | .bool, int _ => none

end Ideal

def Kind.ideal : (k : Kind) → k.Carrier → k.Ideal
  | .int, n => n.toInt
  | .bool, b => b

theorem Kind.ideal_int (n : Int64) : Kind.int.ideal n = n.toInt := rfl

def Value.ideal : Value → Ideal
  | int n => .int n.toInt
  | bool b => .bool b

theorem Value.ideal_of {k : Kind} (v : k.Carrier) : (Value.of k v).ideal = .of k (k.ideal v) := by
  cases k <;> rfl

theorem Value.as?_ideal (k : Kind) (v : Value) : v.ideal.as? k = (v.as? k).map k.ideal := by
  cases k <;> cases v <;> rfl

def IdealScope : Type := String → Option Ideal

namespace IdealScope

def bind (scope : IdealScope) (name : String) (value : Ideal) : IdealScope := fun other =>
  if other = name then some value else scope other

def get (scope : IdealScope) (k : Kind) (name : String) : Except MarkError k.Ideal :=
  match scope name with
  | none => .error (.unboundVariable name)
  | some value =>
      match value.as? k with
      | some v => .ok v
      | none => .error (.typeMismatch name k)

end IdealScope

namespace Scope

def ideal (scope : Scope) : IdealScope := fun name => (scope.lookup name).map Value.ideal

theorem ideal_bind {k : Kind} (scope : Scope) (name : String) (v : k.Carrier) :
    (scope.bind name (.of k v)).ideal = scope.ideal.bind name (.of k (k.ideal v)) := by
  funext other
  rw [ideal, lookup_bind, IdealScope.bind, ← Value.ideal_of]
  split <;> rfl

theorem get_ideal (scope : Scope) (k : Kind) (name : String) :
    scope.ideal.get k name = (scope.get k name).map k.ideal := by
  unfold IdealScope.get get ideal
  cases scope.lookup name with
  | none => rfl
  | some value =>
      simp only [Option.map_some, Value.as?_ideal]
      cases value.as? k <;> rfl

end Scope

inductive Met
  | value (v : Ideal)
  | fault (f : ArithmeticFault)
  deriving DecidableEq, Repr

/-- An evaluation over numbers without bounds: what it comes across, in order, and how it ends. -/
structure Reckoning (α : Type) where
  met : List Met
  outcome : Except MarkError α

namespace Reckoning

variable {α β : Type}

instance : Monad Reckoning where
  pure a := ⟨[], .ok a⟩
  bind r next :=
    match r.outcome with
    | .ok a => ⟨r.met ++ (next a).met, (next a).outcome⟩
    | .error e => ⟨r.met, .error e⟩

def gives (k : Kind) (v : k.Ideal) : Reckoning k.Ideal := ⟨[.value (.of k v)], .ok v⟩

def looked (k : Kind) : Except MarkError k.Ideal → Reckoning k.Ideal
  | .ok v => gives k v
  | .error e => ⟨[], .error e⟩

/-- A result that 64 bits are too few for is noted, and is the result all the same. -/
def result (task : String) (n : Int) : Reckoning Int :=
  if -2 ^ 63 ≤ n ∧ n ≤ 2 ^ 63 - 1 then gives .int n
  else ⟨[.fault (.overflow task), .value (.int n)], .ok n⟩

def quotient (task : String) (a b : Int) : Reckoning Int :=
  if b = 0 then
    ⟨[.fault (.divisionByZero task)], .error (.arithmetic (.divisionByZero task))⟩
  else result task (a.tdiv b)

def firstFault? : List Met → Option ArithmeticFault
  | [] => none
  | .value _ :: rest => firstFault? rest
  | .fault f :: _ => some f

def valuesBefore : List Met → List Ideal
  | [] => []
  | .value v :: rest => v :: valuesBefore rest
  | .fault _ :: _ => []

def fault? (r : Reckoning α) : Option ArithmeticFault := firstFault? r.met

def values (r : Reckoning α) : List Ideal := valuesBefore r.met

end Reckoning

def Comparison.holdsIdeal : Comparison → Int → Int → Bool
  | less, a, b => a < b
  | greater, a, b => b < a

def Expr.Plain : {k : Kind} → Expr k → Prop
  | _, .int _ | _, .size | _, .first | _, .var _ _ => True
  | _, .div lhs rhs | _, .compare _ lhs rhs => lhs.Plain ∧ rhs.Plain
  | _, .and lhs rhs => lhs.Plain ∧ rhs.Plain
  | _, .abs inner => inner.Plain
  | _, .letIn _ init body => init.Plain ∧ body.Plain
  | _, .cond condition yes no => condition.Plain ∧ yes.Plain ∧ no.Plain
  | _, .leaf _ _ | _, .container _ => False

open Reckoning in
def Expr.reckon (commit : Commit) :
    {k : Kind} → (e : Expr k) → e.Plain → IdealScope → Reckoning k.Ideal
  | _, .int n, _, _ => gives .int n.toInt
  | _, .size, _, _ => gives .int commit.growth
  | _, .div lhs rhs, h, scope => do
      let l ← lhs.reckon commit h.1 scope
      let r ← rhs.reckon commit h.2 scope
      quotient (Expr.div lhs rhs).name l r
  | _, .abs inner, h, scope => do
      let n ← inner.reckon commit h scope
      result (Expr.abs inner).name |n|
  | _, .first, _, _ => gives .bool commit.isFirst
  | _, .compare op lhs rhs, h, scope => do
      let l ← lhs.reckon commit h.1 scope
      let r ← rhs.reckon commit h.2 scope
      gives .bool (op.holdsIdeal l r)
  | _, .and lhs rhs, h, scope => do
      match ← lhs.reckon commit h.1 scope with
      | false => return false
      | true => rhs.reckon commit h.2 scope
  | _, .var k name, _, scope => looked k (scope.get k name)
  | _, .letIn (i := i) name init body, h, scope => do
      let v ← init.reckon commit h.1 scope
      body.reckon commit h.2 (scope.bind name (.of i v))
  | _, .cond condition yes no, h, scope => do
      match ← condition.reckon commit h.1 scope with
      | true => yes.reckon commit h.2.1 scope
      | false => no.reckon commit h.2.2 scope
  | _, .leaf _ _, h, _ => h.elim
  | _, .container _, h, _ => h.elim

namespace Reckoning

variable {α β : Type}

theorem firstFault?_append (xs ys : List Met) :
    firstFault? (xs ++ ys) = (firstFault? xs).or (firstFault? ys) := by
  induction xs with
  | nil => rfl
  | cons x xs ih =>
      cases x with
      | value v => exact ih
      | fault f => rfl

theorem valuesBefore_append (xs ys : List Met) :
    valuesBefore (xs ++ ys) =
      valuesBefore xs ++ if firstFault? xs = none then valuesBefore ys else [] := by
  induction xs with
  | nil => rfl
  | cons x xs ih =>
      cases x with
      | value v => exact congrArg (v :: ·) ih
      | fault f => rfl

theorem bind_of_ok {r : Reckoning α} {a : α} (h : r.outcome = .ok a) (next : α → Reckoning β) :
    r >>= next = ⟨r.met ++ (next a).met, (next a).outcome⟩ := by
  change (match r.outcome with | .ok a => _ | .error e => _) = _
  rw [h]

theorem bind_of_error {r : Reckoning α} {e : MarkError} (h : r.outcome = .error e)
    (next : α → Reckoning β) : r >>= next = ⟨r.met, .error e⟩ := by
  change (match r.outcome with | .ok a => _ | .error e => _) = _
  rw [h]

def bounded (r : Reckoning α) : Except MarkError α :=
  match r.fault? with
  | some f => .error (.arithmetic f)
  | none => r.outcome

theorem bind_of_fault {r : Reckoning α} {f : ArithmeticFault} (h : r.fault? = some f)
    (next : α → Reckoning β) :
    (r >>= next).bounded = .error (.arithmetic f) ∧ (r >>= next).values = r.values := by
  unfold bounded values fault? at *
  cases hr : r.outcome with
  | ok a =>
      rw [bind_of_ok hr]
      simp [firstFault?_append, valuesBefore_append, h]
  | error e =>
      rw [bind_of_error hr]
      simp [h]

theorem bounded_eq_ok {r : Reckoning α} {a : α} (h : r.bounded = .ok a) :
    r.fault? = none ∧ r.outcome = .ok a := by
  unfold bounded at h
  split at h
  · cases h
  · next hf => exact ⟨hf, h⟩

theorem bind_of_bounded_ok {r : Reckoning α} {a : α} (h : r.bounded = .ok a)
    (next : α → Reckoning β) :
    (r >>= next).bounded = (next a).bounded ∧
      (r >>= next).values = r.values ++ (next a).values := by
  obtain ⟨hf, ho⟩ := bounded_eq_ok h
  unfold fault? at hf
  rw [bind_of_ok ho]
  simp [bounded, values, fault?, firstFault?_append, valuesBefore_append, hf]

theorem bind_of_bounded_error {r : Reckoning α} {e : MarkError} (h : r.bounded = .error e)
    (next : α → Reckoning β) :
    (r >>= next).bounded = .error e ∧ (r >>= next).values = r.values := by
  cases hf : r.fault? with
  | some f =>
      have he : e = .arithmetic f := by simpa [bounded, hf] using h.symm
      exact he ▸ bind_of_fault hf next
  | none =>
      have ho : r.outcome = .error e := by simpa [bounded, hf] using h
      unfold fault? at hf
      rw [bind_of_error ho]
      exact ⟨by rw [bounded, fault?, hf], rfl⟩

def Regular (r : Reckoning α) : Prop :=
  ∀ e, r.outcome = .error e → r.fault? = none → ∃ x, e.variable? = some x

theorem Regular.bind {r : Reckoning α} {next : α → Reckoning β} (h : r.Regular)
    (hn : ∀ a, (next a).Regular) : (r >>= next).Regular := by
  cases hr : r.outcome with
  | ok a =>
      rw [bind_of_ok hr]
      intro e he hf
      rw [fault?, firstFault?_append, Option.or_eq_none_iff] at hf
      exact hn a e he hf.2
  | error e =>
      rw [bind_of_error hr]
      intro e' he' hf
      cases he'
      exact h e hr hf

theorem regular_of_ok {met : List Met} (a : α) : Regular ⟨met, .ok a⟩ := by
  intro e he
  cases he

theorem regular_result (task : String) (n : Int) : (result task n).Regular := by
  unfold result
  split <;> exact regular_of_ok _

theorem regular_quotient (task : String) (a b : Int) : (quotient task a b).Regular := by
  unfold quotient
  split
  · intro e _ hf
    cases hf
  · exact regular_result _ _

theorem regular_looked (k : Kind) (scope : IdealScope) (name : String) :
    (looked k (scope.get k name)).Regular := by
  unfold IdealScope.get
  split
  · intro e he _
    cases he
    exact ⟨name, rfl⟩
  · split
    · exact regular_of_ok _
    · intro e he _
      cases he
      exact ⟨name, rfl⟩

end Reckoning

open Reckoning in
theorem Expr.reckon_regular (commit : Commit) : {k : Kind} → (e : Expr k) → (plain : e.Plain) →
    (scope : IdealScope) → (e.reckon commit plain scope).Regular
  | _, .int _, _, _ | _, .size, _, _ | _, .first, _, _ => by
      rw [Expr.reckon]
      exact regular_of_ok _
  | _, .var k name, _, scope => by
      rw [Expr.reckon]
      exact regular_looked k scope name
  | _, .div lhs rhs, h, scope => by
      rw [Expr.reckon]
      exact (lhs.reckon_regular commit h.1 scope).bind fun l =>
        (rhs.reckon_regular commit h.2 scope).bind fun r => regular_quotient _ l r
  | _, .abs inner, h, scope => by
      rw [Expr.reckon]
      exact (inner.reckon_regular commit h scope).bind fun _ => regular_result _ _
  | _, .compare op lhs rhs, h, scope => by
      rw [Expr.reckon]
      exact (lhs.reckon_regular commit h.1 scope).bind fun l =>
        (rhs.reckon_regular commit h.2 scope).bind fun r => regular_of_ok _
  | _, .and lhs rhs, h, scope => by
      rw [Expr.reckon]
      refine (lhs.reckon_regular commit h.1 scope).bind fun l => ?_
      cases l with
      | false => exact regular_of_ok _
      | true => exact rhs.reckon_regular commit h.2 scope
  | _, .letIn name init body, h, scope => by
      rw [Expr.reckon]
      exact (init.reckon_regular commit h.1 scope).bind fun v => body.reckon_regular commit h.2 _
  | _, .cond condition yes no, h, scope => by
      rw [Expr.reckon]
      refine (condition.reckon_regular commit h.1 scope).bind fun c => ?_
      cases c with
      | true => exact yes.reckon_regular commit h.2.1 scope
      | false => exact no.reckon_regular commit h.2.2 scope
  | _, .leaf _ _, h, _ => h.elim
  | _, .container _, h, _ => h.elim

end CommitMarking
