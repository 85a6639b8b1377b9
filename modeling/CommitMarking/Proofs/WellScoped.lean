import CommitMarking.Proofs.FailStop

namespace CommitMarking

/-- An occurrence of a variable: what it is read as, and what the nearest binding around it holds,
if there is one in the expression. -/
structure Use where
  name : String
  kind : Kind
  binder : Option Kind
  deriving DecidableEq, Repr

namespace Use

def under (name : String) (i : Kind) (u : Use) : Use :=
  if u.binder = none ∧ u.name = name then { u with binder := some i } else u

/-- The nearest binding holds a value of the kind that the occurrence asks for. A free occurrence
has its nearest binding in the scope. -/
def Fits (scope : Scope) (u : Use) : Prop :=
  u.binder.or ((scope.lookup u.name).map Value.kind) = some u.kind

instance (scope : Scope) (u : Use) : Decidable (u.Fits scope) :=
  inferInstanceAs (Decidable (_ = _))

end Use

mutual

def Expr.uses : {k : Kind} → Expr k → List Use
  | _, .int _ | _, .size | _, .first | _, .leaf _ _ => []
  | _, .div lhs rhs | _, .compare _ lhs rhs => lhs.uses ++ rhs.uses
  | _, .and lhs rhs => lhs.uses ++ rhs.uses
  | _, .abs inner => inner.uses
  | _, .var k name => [⟨name, k, none⟩]
  | _, .letIn (i := i) name init body => init.uses ++ body.uses.map (Use.under name i)
  | _, .cond condition yes no => condition.uses ++ (yes.uses ++ no.uses)
  | _, .container g => g.uses

def Generator.uses : {k : Kind} → Generator k → List Use
  | _, .task _ expr => expr.uses
  | _, .refuse _ _ | _, .runner _ => []
  | _, .andAll lhs rhs => lhs.uses ++ rhs.uses

end

def Expr.WellScoped {k : Kind} (scope : Scope) (e : Expr k) : Prop := ∀ u ∈ e.uses, u.Fits scope

def MarkError.variable? : MarkError → Option String
  | unboundVariable name => some name
  | typeMismatch name _ => some name
  | _ => none

theorem Scope.get_eq_ok_iff (scope : Scope) (k : Kind) (name : String) :
    (∃ v, scope.get k name = .ok v) ↔ (scope.lookup name).map Value.kind = some k := by
  unfold Scope.get
  cases scope.lookup name with
  | none => simp
  | some value => cases k <;> cases value <;> simp [Value.as?, Value.kind]

namespace Use

theorem name_under (name : String) (i : Kind) (u : Use) : (u.under name i).name = u.name := by
  unfold under
  split <;> rfl

theorem kind_under (name : String) (i : Kind) (u : Use) : (u.under name i).kind = u.kind := by
  unfold under
  split <;> rfl

theorem fits_under {name : String} {i : Kind} (v : i.Carrier) (scope : Scope) (u : Use) :
    (u.under name i).Fits scope ↔ u.Fits (scope.bind name (.of i v)) := by
  rcases u with ⟨x, k, binder⟩
  unfold under Fits
  rw [Scope.lookup_bind]
  cases binder with
  | some j => simp
  | none => by_cases hx : x = name <;> simp [hx]

end Use

def Reads (scope : Scope) (events : List Event) (uses : List Use) : Prop :=
  ∀ k name result, .looked k name result ∈ events →
    ∃ u ∈ uses, u.name = name ∧ u.kind = k ∧ (u.Fits scope ↔ ∃ v, result = .ok v)

namespace Reads

variable {scope : Scope} {xs ys : List Event} {us vs : List Use}

theorem mono (h : Reads scope xs us) (hs : us ⊆ vs) : Reads scope xs vs := by
  intro k name result hev
  obtain ⟨u, hu, htells⟩ := h k name result hev
  exact ⟨u, hs hu, htells⟩

theorem append (hx : Reads scope xs us) (hy : Reads scope ys vs) :
    Reads scope (xs ++ ys) (us ++ vs) := by
  intro k name result hev
  rcases List.mem_append.1 hev with hev | hev
  · exact hx.mono (List.subset_append_left us vs) k name result hev
  · exact hy.mono (List.subset_append_right us vs) k name result hev

theorem cons {ev : Event} (h : Reads scope xs us)
    (hev : ∀ k name result, ev ≠ .looked k name result) :
    Reads scope (ev :: xs) us := by
  intro k name result hmem
  rcases List.mem_cons.1 hmem with heq | hmem
  · exact (hev k name result heq.symm).elim
  · exact h k name result hmem

theorem onward {α : Type} {act : Act MarkError α} {w : World} {events : α → World → List Event}
    (h : ∀ a v, Reads scope (events a v) us) : Reads scope (act.onward w events) us := by
  intro k name result hev
  obtain ⟨a, v, -, hev⟩ := Act.mem_onward hev
  exact h a v k name result hev

theorem under {name : String} {i : Kind} {v : i.Carrier}
    (h : Reads (scope.bind name (.of i v)) xs us) :
    Reads scope xs (us.map (Use.under name i)) := by
  intro k x result hev
  obtain ⟨u, hu, hname, hkind, hfits⟩ := h k x result hev
  refine ⟨u.under name i, List.mem_map_of_mem hu, ?_, ?_, ?_⟩
  · rw [u.name_under, hname]
  · rw [u.kind_under, hkind]
  · rw [u.fits_under v, hfits]

end Reads

section Soundness

variable (m : Machine) (commit : Commit)

theorem Generator.preparation_reads (scope : Scope) (dir : Location) : {k : Kind} →
    (g : Generator k) → (w : World) → Reads scope (g.preparation m dir w) []
  | _, .task _ _, _ | _, .refuse _ _, _ | _, .runner _, _ => by simp [Reads, preparation]
  | _, .andAll lhs rhs, w =>
      (lhs.preparation_reads scope dir w).append
        (.onward fun _ u => rhs.preparation_reads scope dir u)

mutual

theorem Expr.course_reads : {k : Kind} → (e : Expr k) → (scope : Scope) → (w : World) →
    Reads scope (e.course m commit scope w) e.uses
  | _, .int _, _, _ | _, .size, _, _ | _, .first, _, _ | _, .leaf _ _, _, _ => by
      simp [Reads, Expr.course]
  | _, .var k name, scope, w => by
      rintro k' x result hev
      rw [Expr.course, List.mem_singleton] at hev
      cases hev
      exact ⟨⟨name, k, none⟩, by simp [Expr.uses], rfl, rfl, (scope.get_eq_ok_iff k name).symm⟩
  | _, .div lhs rhs, scope, w | _, .compare _ lhs rhs, scope, w => by
      rw [Expr.course, Expr.uses]
      refine (lhs.course_reads scope w).append (.onward fun l u => ?_)
      rw [← List.append_nil rhs.uses]
      exact (rhs.course_reads scope u).append (.onward fun _ _ => by simp [Reads])
  | _, .and lhs rhs, scope, w => by
      rw [Expr.course, Expr.uses]
      refine (lhs.course_reads scope w).append (.onward fun l u => ?_)
      cases l.value with
      | false => simp [Reads]
      | true => exact rhs.course_reads scope u
  | _, .abs inner, scope, w => by
      rw [Expr.course, Expr.uses, ← List.append_nil inner.uses]
      exact (inner.course_reads scope w).append (.onward fun _ _ => by simp [Reads])
  | _, .letIn name init body, scope, w => by
      rw [Expr.course, Expr.uses]
      exact (init.course_reads scope w).append
        (.onward fun i u => (body.course_reads (scope.bind name (.of _ i.value)) u).under)
  | _, .cond condition yes no, scope, w => by
      rw [Expr.course, Expr.uses]
      refine (condition.course_reads scope w).append (.onward fun c u => ?_)
      cases c.value with
      | true => exact (yes.course_reads scope u).mono (List.subset_append_left _ _)
      | false => exact (no.course_reads scope u).mono (List.subset_append_right _ _)
  | _, .container g, scope, w => by
      rw [Expr.course, Expr.uses, ← List.append_nil g.uses]
      refine .append (.cons ?_ nofun) (by simp [Reads])
      exact (g.preparation_reads m scope _ _).append
        (.onward fun _ u => (g.course_reads scope _ u).cons nofun)

theorem Generator.course_reads : {k : Kind} → (g : Generator k) → (scope : Scope) →
    (dir : Location) → (w : World) → Reads scope (g.course m commit scope dir w) g.uses
  | _, .task _ expr, scope, _, w => by
      rw [Generator.course, Generator.uses]
      exact expr.course_reads scope w
  | _, .refuse _ _, _, _, _ | _, .runner _, _, _, _ => by simp [Reads, Generator.course]
  | _, .andAll lhs rhs, scope, dir, w => by
      rw [Generator.course, Generator.uses]
      refine (lhs.course_reads scope dir w).append (.onward fun l u => ?_)
      cases l.value with
      | false => simp [Reads]
      | true => exact rhs.course_reads scope dir u

end

/-- A well-scoped expression does not go wrong: only what comes in at one of its sites can end its
evaluation with an error about a variable. Where no site fails, such an error is that of a look-up
for an occurrence that does not fit in with its nearest binding. -/
theorem Expr.well_scoped_sound {k : Kind} (e : Expr k) (scope : Scope) (w : World)
    {error : MarkError} {x : String} (herror : ((e.apply m commit scope).run w).1 = .error error)
    (hx : error.variable? = some x) :
    let course := e.course m commit scope w
    (e.WellScoped scope → ∃ ev ∈ course, ∃ after, ev.SiteFails error after) ∧
    ((∀ ev ∈ course, ∀ after, ¬ev.SiteFails error after) →
      ∃ u ∈ e.uses, u.name = x ∧ ¬u.Fits scope ∧ .looked u.kind x (.error error) ∈ course) := by
  intro course
  obtain ⟨ev, hev, ⟨after, hs⟩ | hn⟩ := (e.course_follows m commit scope w).exists_fails herror
  · exact ⟨fun _ => ⟨ev, hev, after, hs⟩, fun hnone => (hnone ev hev after hs).elim⟩
  · obtain ⟨k', hlooked⟩ : ∃ k', Event.looked k' x (.error error) ∈ course := by
      cases hn with
      | unbound k' name | mismatch k' name =>
          cases hx
          exact ⟨k', hev⟩
      | arithmetic fault => cases hx
    obtain ⟨u, hu, hname, rfl, hfits⟩ := e.course_reads m commit scope w _ _ _ hlooked
    have hmisfit : ¬u.Fits scope := by simp [hfits]
    exact ⟨fun hscoped => (hmisfit (hscoped u hu)).elim, fun _ => ⟨u, hu, hname, hmisfit, hlooked⟩⟩

end Soundness

instance {k : Kind} (scope : Scope) (e : Expr k) : Decidable (e.WellScoped scope) :=
  inferInstanceAs (Decidable (∀ u ∈ e.uses, u.Fits scope))

/-- The binding of a boolean hides the integer of the scope also from the task of a container. The
error of a leaf is not one of the expression, whatever it says. -/
theorem Expr.well_scoped_sound_shadowed :
    let shadowed : Expr .int :=
      .letIn "x" (.compare .less (.int 1) (.int 2)) (.container (.task "t" (.var .int "x")))
    let raising : Expr .int :=
      .letIn "y" .first (.cond (.var .bool "y") (.leaf "z" (.error (.unboundVariable "x"))) (.int 0))
    let scope : Scope := .bind .empty "x" (.int 5)
    let commit : Commit := ⟨"c", "", none, none, []⟩
    let w : World := .fresh ⟨[]⟩
    (((shadowed.apply .bare commit scope).run w).1 = .error (.typeMismatch "x" .int) ∧
      ∃ u ∈ shadowed.uses, u.name = "x" ∧ ¬u.Fits scope) ∧
    ((raising.apply .bare commit scope).run w).1 = .error (.unboundVariable "x") ∧
      raising.WellScoped scope ∧
      ∃ ev ∈ raising.course .bare commit scope w, ∃ after, ev.SiteFails (.unboundVariable "x") after := by
  intro shadowed raising scope commit w
  have hs : ((shadowed.apply .bare commit scope).run w).1 = .error (.typeMismatch "x" .int) := rfl
  have hr : ((raising.apply .bare commit scope).run w).1 = .error (.unboundVariable "x") := rfl
  have hscoped : raising.WellScoped scope := by decide
  have hnone : ∀ ev ∈ shadowed.course .bare commit scope w,
      ev.site? = none ∨ ev.failure? = none := by
    decide
  obtain ⟨u, hu, hname, hfits, -⟩ := (well_scoped_sound .bare commit shadowed scope w hs rfl).2
    fun ev hev after hf => by
      rcases hnone ev hev with h | h <;> cases hf <;> cases h
  exact ⟨⟨hs, u, hu, hname, hfits⟩, hr, hscoped,
    (well_scoped_sound .bare commit raising scope w hr rfl).1 hscoped⟩

end CommitMarking
