import CommitMarking.Eval

namespace CommitMarking

namespace Scope

def Agree (s t : Scope) (names : List String) : Prop := ∀ x ∈ names, s.lookup x = t.lookup x

variable {s t : Scope} {xs ys : List String}

theorem Agree.left (h : s.Agree t (xs ++ ys)) : s.Agree t xs :=
  fun x hx => h x (List.mem_append_left _ hx)

theorem Agree.right (h : s.Agree t (xs ++ ys)) : s.Agree t ys :=
  fun x hx => h x (List.mem_append_right _ hx)

theorem Agree.get {name : String} (h : s.Agree t [name]) (k : Kind) : s.get k name = t.get k name := by
  rw [Scope.get, Scope.get, h name (List.mem_singleton_self name)]

/-- What the outer bindings of a bound name are does not matter any more. -/
theorem Agree.bind {name : String} (h : s.Agree t (xs.filter (· ≠ name))) (v : Value) :
    (s.bind name v).Agree (t.bind name v) xs := by
  intro x hx
  rw [lookup_bind, lookup_bind]
  by_cases hn : x = name
  · rw [if_pos hn, if_pos hn]
  · rw [if_neg hn, if_neg hn]
    exact h x (List.mem_filter.2 ⟨hx, decide_eq_true hn⟩)

end Scope

mutual

/-- The names that an expression looks up outside of itself. A binding ends a name's freedom in its
body but not in its own initial value, and reaches through the containers in the body. -/
def Expr.free : {k : Kind} → Expr k → List String
  | _, .int _ => []
  | _, .size => []
  | _, .div lhs rhs => lhs.free ++ rhs.free
  | _, .abs inner => inner.free
  | _, .first => []
  | _, .compare _ lhs rhs => lhs.free ++ rhs.free
  | _, .and lhs rhs => lhs.free ++ rhs.free
  | _, .var _ name => [name]
  | _, .letIn name init body => init.free ++ body.free.filter (· ≠ name)
  | _, .cond condition yes no => condition.free ++ (yes.free ++ no.free)
  | _, .leaf _ _ => []
  | _, .container g => g.free

def Generator.free : {k : Kind} → Generator k → List String
  | _, .task _ expr => expr.free
  | _, .refuse _ _ => []
  | _, .runner _ => []
  | _, .andAll lhs rhs => lhs.free ++ rhs.free

end

variable (m : Machine) (commit : Commit)

mutual

theorem Expr.apply_congr : {k : Kind} → (e : Expr k) → {s t : Scope} → s.Agree t e.free →
    e.apply m commit s = e.apply m commit t
  | _, .int _, _, _, _ | _, .size, _, _, _ | _, .first, _, _, _ | _, .leaf _ _, _, _, _ => by
      simp only [Expr.apply]
  | _, .div lhs rhs, _, _, h | _, .compare _ lhs rhs, _, _, h | _, .and lhs rhs, _, _, h => by
      simp only [Expr.apply, lhs.apply_congr h.left, rhs.apply_congr h.right]
  | _, .abs inner, _, _, h => by simp only [Expr.apply, inner.apply_congr h]
  | _, .var _ _, _, _, h => by simp only [Expr.apply, h.get]
  | _, .letIn _ init body, _, _, h => by
      have hb (v : Value) := body.apply_congr (h.right.bind v)
      simp only [Expr.apply, init.apply_congr h.left, hb]
  | _, .cond condition yes no, _, _, h => by
      simp only [Expr.apply, condition.apply_congr h.left, yes.apply_congr h.right.left,
        no.apply_congr h.right.right]
  | _, .container g, _, _, h => by simp only [Expr.apply, g.apply_congr h]

theorem Generator.apply_congr : {k : Kind} → (g : Generator k) → {s t : Scope} → s.Agree t g.free →
    (dir : Location) → g.apply m commit s dir = g.apply m commit t dir
  | _, .task _ expr, _, _, h, _ => by simp only [Generator.apply, expr.apply_congr h]
  | _, .refuse _ _, _, _, _, _ | _, .runner _, _, _, _, _ => by simp only [Generator.apply]
  | _, .andAll lhs rhs, _, _, h, dir => by
      simp only [Generator.apply, lhs.apply_congr h.left, rhs.apply_congr h.right]

end

/-- Only the names that are free in an expression bear on its evaluation: on its value or error, on
what it says about itself, and on all that it does. -/
theorem run_eq_of_free_eq {k : Kind} (e : Expr k) {s t : Scope}
    (h : ∀ x ∈ e.free, s.lookup x = t.lookup x) (w : World) :
    (e.apply m commit s).run w = (e.apply m commit t).run w := by
  rw [e.apply_congr m commit h]

/-- The inner binding of `x` hides the outer ones, and `n` means the same inside it and outside. -/
theorem run_eq_of_free_eq_shadowed :
    let inner : Expr .bool := .compare .less (.var .int "x") (.var .int "n")
    let e : Expr .int := .letIn "x" (.abs (.var .int "n"))
      (.cond (.container (.andAll (.task "inner" inner) (.task "first" .first))) (.int 1)
        (.var .int "x"))
    let s : Scope := .bind (.bind .empty "n" (.int (-4))) "x" (.bool true)
    let t : Scope := .bind (.bind .empty "x" (.int 9)) "n" (.int (-4))
    let commit : Commit := ⟨"c", "shadowed", none, none, []⟩
    (s.lookup "x" ≠ t.lookup "x" ∧ ∀ x ∈ e.free, s.lookup x = t.lookup x) ∧
      ∀ w, (e.apply .bare commit s).run w = (e.apply .bare commit t).run w := by
  intro inner e s t commit
  have h : ∀ x ∈ e.free, s.lookup x = t.lookup x := by decide
  exact ⟨⟨by decide, h⟩, run_eq_of_free_eq .bare commit e h⟩

end CommitMarking
