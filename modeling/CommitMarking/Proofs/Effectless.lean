import CommitMarking.Eval

namespace CommitMarking

namespace Evaluation

theorem quotient_eq_ok {task : String} {l r : Evaluation .int} {q : Int64}
    (h : divide task l.value r.value = .ok q) : ∃ e, l.quotient task r = .ok e ∧ e.value = q := by
  rw [quotient, h]
  exact ⟨_, rfl, rfl⟩

theorem absolute_eq_ok {task : String} {inner : Evaluation .int} {a : Int64}
    (h : CommitMarking.absolute task inner.value = .ok a) :
    ∃ e, inner.absolute task = .ok e ∧ e.value = a := by
  rw [Evaluation.absolute, h]
  exact ⟨_, rfl, rfl⟩

end Evaluation

namespace Expr

open Act

variable {m : Machine} {commit : Commit} {scope : Scope} {w : World} {i k : Kind}

/-- In the world `w` an expression has the value `v`, and its evaluation leaves the world as it is. -/
def Gives (m : Machine) (commit : Commit) (scope : Scope) (w : World) (e : Expr k)
    (v : k.Carrier) : Prop :=
  ∃ r, (e.apply m commit scope).run w = (.ok r, w) ∧ r.value = v

theorem gives_int (n : Int64) : Gives m commit scope w (.int n) n := ⟨_, rfl, rfl⟩

theorem gives_size : Gives m commit scope w .size commit.changedSize := ⟨_, rfl, rfl⟩

theorem gives_first : Gives m commit scope w .first commit.isFirst := ⟨_, rfl, rfl⟩

theorem gives_var {name : String} {v : k.Carrier} (h : scope.get k name = .ok v) :
    Gives m commit scope w (.var k name) v :=
  ⟨⟨v, .line name⟩, by rw [Expr.apply, run_bind, run_lift, h]; rfl, rfl⟩

theorem Gives.compare {lhs rhs : Expr .int} {a b : Int64} (op : Comparison)
    (hl : Gives m commit scope w lhs a) (hr : Gives m commit scope w rhs b) :
    Gives m commit scope w (.compare op lhs rhs) (op.holds a b) := by
  obtain ⟨l, hl, rfl⟩ := hl
  obtain ⟨r, hr, rfl⟩ := hr
  exact ⟨.compare op l r, by simp only [Expr.apply, run_bind, hl, hr, run_pure], rfl⟩

theorem Gives.div {lhs rhs : Expr .int} {a b q : Int64} (hl : Gives m commit scope w lhs a)
    (hr : Gives m commit scope w rhs b) (hq : divide (Expr.div lhs rhs).name a b = .ok q) :
    Gives m commit scope w (.div lhs rhs) q := by
  obtain ⟨l, hl, rfl⟩ := hl
  obtain ⟨r, hr, rfl⟩ := hr
  obtain ⟨e, he, hv⟩ := Evaluation.quotient_eq_ok hq
  exact ⟨e, by simp only [Expr.apply, run_bind, hl, hr, he, run_lift], hv⟩

theorem Gives.abs {inner : Expr .int} {a b : Int64} (hi : Gives m commit scope w inner a)
    (hb : absolute (Expr.abs inner).name a = .ok b) : Gives m commit scope w (.abs inner) b := by
  obtain ⟨e, he, rfl⟩ := hi
  obtain ⟨a, ha, hv⟩ := Evaluation.absolute_eq_ok hb
  exact ⟨a, by simp only [Expr.apply, run_bind, he, ha, run_lift], hv⟩

theorem Gives.letIn {name : String} {init : Expr i} {body : Expr k} {a : i.Carrier} {b : k.Carrier}
    (hi : Gives m commit scope w init a)
    (hb : Gives m commit (scope.bind name (.of i a)) w body b) :
    Gives m commit scope w (.letIn name init body) b := by
  obtain ⟨e, he, rfl⟩ := hi
  obtain ⟨r, hr, rfl⟩ := hb
  exact ⟨.inBinding name e r, by simp only [Expr.apply, run_bind, he, hr, run_pure], rfl⟩

theorem cond_run {condition : Expr .bool} {yes no : Expr k} {c : Evaluation .bool} {v : k.Carrier}
    {u : World} (hc : (condition.apply m commit scope).run w = (.ok c, u))
    (hv : Gives m commit scope u (if c.value then yes else no) v) :
    ∃ r, ((Expr.cond condition yes no).apply m commit scope).run w = (.ok r, u) ∧ r.value = v := by
  obtain ⟨r, hr, rfl⟩ := hv
  refine ⟨.afterCondition condition.name c r, ?_, rfl⟩
  rw [Expr.apply, branch, run_bind, hc]
  cases hb : c.value with
  | true =>
      rw [hb, if_pos rfl] at hr
      simp only [hb, run_bind, hr, run_pure]
  | false =>
      rw [hb, if_neg Bool.false_ne_true] at hr
      simp only [hb, run_bind, hr, run_pure]

theorem cond_run_error {condition : Expr .bool} {yes no : Expr k} {e : MarkError} {u : World}
    (hc : (condition.apply m commit scope).run w = (.error e, u)) :
    ((Expr.cond condition yes no).apply m commit scope).run w = (.error e, u) := by
  rw [Expr.apply, branch, run_bind, hc]

theorem cond_run_branch_error {condition : Expr .bool} {yes no : Expr k} {c : Evaluation .bool}
    {e : MarkError} {u v : World} (hc : (condition.apply m commit scope).run w = (.ok c, u))
    (he : ((if c.value then yes else no).apply m commit scope).run u = (.error e, v)) :
    ((Expr.cond condition yes no).apply m commit scope).run w = (.error e, v) := by
  rw [Expr.apply, branch, run_bind, hc]
  cases hb : c.value with
  | true =>
      rw [hb, if_pos rfl] at he
      simp only [hb, run_bind, he]
  | false =>
      rw [hb, if_neg Bool.false_ne_true] at he
      simp only [hb, run_bind, he]

theorem Gives.cond {condition : Expr .bool} {yes no : Expr k} {b : Bool} {v : k.Carrier}
    (hc : Gives m commit scope w condition b)
    (hv : Gives m commit scope w (if b then yes else no) v) :
    Gives m commit scope w (.cond condition yes no) v := by
  obtain ⟨c, hc, rfl⟩ := hc
  exact cond_run hc hv

end Expr

end CommitMarking
