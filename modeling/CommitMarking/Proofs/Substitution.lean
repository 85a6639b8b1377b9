import CommitMarking.Proofs.Restoring
import CommitMarking.Proofs.Scoping
import CommitMarking.Proofs.Unreached
import CommitMarking.Proofs.WellScoped

namespace CommitMarking

mutual

/-- Writes the number for the variable wherever it is free, also in the tasks of containers. In the
body of another binding of its name the variable is left to that binding. -/
def Expr.subst (x : String) (v : Int64) : {k : Kind} → Expr k → Expr k
  | _, .int n => .int n
  | _, .size => .size
  | _, .div lhs rhs => .div (lhs.subst x v) (rhs.subst x v)
  | _, .abs inner => .abs (inner.subst x v)
  | _, .first => .first
  | _, .compare op lhs rhs => .compare op (lhs.subst x v) (rhs.subst x v)
  | _, .and lhs rhs => .and (lhs.subst x v) (rhs.subst x v)
  | _, .var .int name => if name = x then .int v else .var .int name
  | _, .var .bool name => .var .bool name
  | _, .letIn name init body =>
      .letIn name (init.subst x v) (if name = x then body else body.subst x v)
  | _, .cond condition yes no => .cond (condition.subst x v) (yes.subst x v) (no.subst x v)
  | _, .leaf name ending => .leaf name ending
  | _, .container g => .container (g.subst x v)

def Generator.subst (x : String) (v : Int64) : {k : Kind} → Generator k → Generator k
  | _, .task name expr => .task name (expr.subst x v)
  | _, .refuse name error => .refuse name error
  | _, .runner r => .runner r
  | _, .andAll lhs rhs => .andAll (lhs.subst x v) (rhs.subst x v)

end

def IntegerAt (x : String) (uses : List Use) : Prop :=
  ∀ u ∈ uses, u.name = x → u.binder = none → u.kind = .int

instance (x : String) (uses : List Use) : Decidable (IntegerAt x uses) :=
  inferInstanceAs (Decidable (∀ u ∈ uses, u.name = x → u.binder = none → u.kind = .int))

structure Scope.Gives (x : String) (v : Int64) (s t : Scope) : Prop where
  here : s.lookup x = some (.int v)
  elsewhere : ∀ y, y ≠ x → s.lookup y = t.lookup y

namespace IntegerAt

variable {x name : String} {us vs : List Use}

theorem left (h : IntegerAt x (us ++ vs)) : IntegerAt x us :=
  fun u hu => h u (List.mem_append_left _ hu)

theorem right (h : IntegerAt x (us ++ vs)) : IntegerAt x vs :=
  fun u hu => h u (List.mem_append_right _ hu)

theorem of_under {i : Kind} (hn : name ≠ x) (h : IntegerAt x (us.map (Use.under name i))) :
    IntegerAt x us := by
  intro u hu hname hfree
  have hunder : u.under name i = u := if_neg fun ⟨_, he⟩ => hn (he.symm.trans hname)
  exact h u (List.mem_map.2 ⟨u, hu, hunder⟩) hname hfree

end IntegerAt

namespace Scope

variable {x name : String} {v : Int64} {s t : Scope}

theorem gives_bind (x : String) (v : Int64) (s : Scope) : Gives x v (s.bind x (.int v)) s where
  here := by rw [lookup_bind, if_pos rfl]
  elsewhere y hy := by rw [lookup_bind, if_neg hy]

namespace Gives

theorem bind (h : Gives x v s t) (hn : name ≠ x) (value : Value) :
    Gives x v (s.bind name value) (t.bind name value) where
  here := by rw [lookup_bind, if_neg hn.symm, h.here]
  elsewhere y hy := by rw [lookup_bind, lookup_bind, h.elsewhere y hy]

theorem agree_bind (h : Gives x v s t) (value : Value) (names : List String) :
    (s.bind x value).Agree (t.bind x value) names := by
  refine Agree.bind (fun y hy => h.elsewhere y ?_) value
  simpa using (List.mem_filter.1 hy).2

theorem get_eq (h : Gives x v s t) (hn : name ≠ x) (k : Kind) : s.get k name = t.get k name := by
  rw [Scope.get, Scope.get, h.elsewhere name hn]

end Gives

end Scope

theorem Generator.prepare_subst (m : Machine) (dir : Location) (x : String) (v : Int64) :
    {k : Kind} → (g : Generator k) → (g.subst x v).prepare m dir = g.prepare m dir
  | _, .task _ _ | _, .refuse _ _ | _, .runner _ => by
      simp only [Generator.subst, Generator.prepare]
  | _, .andAll lhs rhs => by
      simp only [Generator.subst, Generator.prepare, lhs.prepare_subst, rhs.prepare_subst]

mutual

theorem Expr.Contained.subst {m : Machine} (x : String) (v : Int64) : {k : Kind} → {e : Expr k} →
    e.Contained m → (e.subst x v).Contained m
  | _, .int _, h | _, .size, h | _, .first, h | _, .leaf _ _, h | _, .var .bool _, h => h
  | _, .var .int name, h => by
      rw [Expr.subst]
      split <;> trivial
  | _, .div _ _, h | _, .compare _ _ _, h | _, .and _ _, h =>
      ⟨Expr.Contained.subst x v h.1, Expr.Contained.subst x v h.2⟩
  | _, .abs inner, h => Expr.Contained.subst (e := inner) x v h
  | _, .letIn name init body, h => by
      rw [Expr.subst]
      refine ⟨Expr.Contained.subst x v h.1, ?_⟩
      split
      · exact h.2
      · exact Expr.Contained.subst x v h.2
  | _, .cond _ _ _, h =>
      ⟨Expr.Contained.subst x v h.1, Expr.Contained.subst x v h.2.1, Expr.Contained.subst x v h.2.2⟩
  | _, .container g, h => Generator.Contained.subst (g := g) x v h

theorem Generator.Contained.subst {m : Machine} (x : String) (v : Int64) : {k : Kind} →
    {g : Generator k} → g.Contained m → (g.subst x v).Contained m
  | _, .task _ expr, h => Expr.Contained.subst (e := expr) x v h
  | _, .refuse _ _, h | _, .runner _, h => h
  | _, .andAll _ _, h => ⟨Generator.Contained.subst x v h.1, Generator.Contained.subst x v h.2⟩

end

section Runs

variable {m : Machine} {commit : Commit} {x : String} {v : Int64}

/-- A number that is written differs from one that is looked up in nothing but the summary. -/
theorem Evaluation.Alike.constant (name : String) (v : Int64) :
    Evaluation.Alike true ⟨v, .line name⟩ (.constant v) := ⟨rfl, fun _ => rfl, fun h => nomatch h⟩

mutual

/-- With the number for the variable an expression does in the outer scope what it does where the
variable is bound to the number. Parts of it are called differently. -/
theorem Expr.subst_runs_alike : {k : Kind} → (e : Expr k) → IntegerAt x e.uses → {s t : Scope} →
    s.Gives x v t → (w : World) →
    AlikeRuns true ((e.apply m commit s).run w) (((e.subst x v).apply m commit t).run w)
  | _, .int _, _, _, _, _, _ | _, .size, _, _, _, _, _ | _, .first, _, _, _, _, _
  | _, .leaf _ _, _, _, _, _, _ => by
      simp only [Expr.subst, Expr.apply]
      exact .refl _
  | _, .div lhs rhs, hx, s, t, h, w => by
      rw [Expr.subst, Expr.apply, Expr.apply]
      refine (lhs.subst_runs_alike hx.left h w).bind fun l l' u _ hl => ?_
      refine (rhs.subst_runs_alike hx.right h u).bind fun r r' u' _ hr => .lift ?_
      exact .quotient (fun ho => nomatch ho) hl hr
  | _, .abs inner, hx, s, t, h, w => by
      rw [Expr.subst, Expr.apply, Expr.apply]
      refine (inner.subst_runs_alike hx h w).bind fun a a' u _ ha => .lift ?_
      exact .absolute (fun ho => nomatch ho) ha
  | _, .compare op lhs rhs, hx, s, t, h, w => by
      rw [Expr.subst, Expr.apply, Expr.apply]
      refine (lhs.subst_runs_alike hx.left h w).bind fun l l' u _ hl => ?_
      exact (rhs.subst_runs_alike hx.right h u).bind fun r r' u' _ hr => .pure (hl.compare op hr)
  | _, .and lhs rhs, hx, s, t, h, w => by
      rw [Expr.subst, Expr.apply, Expr.apply]
      exact (lhs.subst_runs_alike hx.left h w).conjoin (fun ho => nomatch ho) (fun ho => nomatch ho)
        fun l u _ _ => rhs.subst_runs_alike hx.right h u
  | _, .var .int name, _, s, t, h, w => by
      rw [Expr.subst]
      by_cases hn : name = x
      · subst hn
        have hget : s.get .int name = .ok v := by rw [Scope.get, h.here]; rfl
        rw [if_pos rfl, Expr.apply, Expr.apply, Act.run_bind, Act.run_lift, hget]
        exact .pure (.constant name v)
      · rw [if_neg hn, Expr.apply, Expr.apply, h.get_eq hn]
        exact .refl _
  | _, .var .bool name, hx, s, t, h, w => by
      have hn : name ≠ x := fun hn => nomatch hx _ (List.mem_singleton_self _) hn rfl
      rw [Expr.subst, Expr.apply, Expr.apply, h.get_eq hn]
      exact .refl _
  | _, .letIn name init body, hx, s, t, h, w => by
      rw [Expr.subst, Expr.apply, Expr.apply]
      refine (init.subst_runs_alike hx.left h w).bind fun i i' u _ hi => ?_
      rw [hi.value]
      by_cases hn : name = x
      · -- the body stays, and under its binding the scopes tell the same about every name
        subst hn
        rw [if_pos rfl, body.apply_congr m commit (h.agree_bind _ _)]
        exact .bind_same fun b u' _ => .pure (hi.inBinding (.refl b))
      · rw [if_neg hn]
        refine (body.subst_runs_alike (hx.right.of_under hn) (h.bind hn _) u).bind ?_
        exact fun b b' u' _ hb => .pure (hi.inBinding hb)
  | _, .cond condition yes no, hx, s, t, h, w => by
      rw [Expr.subst, Expr.apply, Expr.apply]
      refine (condition.subst_runs_alike hx.left h w).branch (fun ho => nomatch ho) fun c u _ => ?_
      cases c.value with
      | true => exact yes.subst_runs_alike hx.right.left h u
      | false => exact no.subst_runs_alike hx.right.right h u
  | _, .container g, hx, s, t, h, w => by
      rw [Expr.subst, Expr.apply, Expr.apply]
      refine .inScratch m.scratch ?_
      intro dir u
      rw [g.prepare_subst]
      exact .bind_same fun _ u' _ => g.subst_runs_alike hx h dir u'

theorem Generator.subst_runs_alike : {k : Kind} → (g : Generator k) → IntegerAt x g.uses →
    {s t : Scope} → s.Gives x v t → (dir : Location) → (w : World) →
    AlikeRuns true ((g.apply m commit s dir).run w) (((g.subst x v).apply m commit t dir).run w)
  | _, .task _ expr, hx, _, _, h, _, w => by
      rw [Generator.subst, Generator.apply, Generator.apply]
      exact expr.subst_runs_alike hx h w
  | _, .refuse _ _, _, _, _, _, _, _ | _, .runner _, _, _, _, _, _, _ => by
      simp only [Generator.subst, Generator.apply]
      exact .refl _
  | _, .andAll lhs rhs, hx, _, _, h, dir, w => by
      rw [Generator.subst, Generator.apply, Generator.apply]
      exact (lhs.subst_runs_alike hx.left h dir w).conjoin (fun ho => nomatch ho)
        (fun ho => nomatch ho) fun l u _ _ => rhs.subst_runs_alike hx.right h dir u

end

variable {k : Kind} {init : Expr .int} {body : Expr k} {scope : Scope} {w u : World}

theorem Expr.run_letIn {i : Evaluation .int}
    (h : (init.apply m commit scope).run w = (.ok i, u)) :
    ((Expr.letIn x init body).apply m commit scope).run w =
      let after := (body.apply m commit (scope.bind x (.int i.value))).run u
      (after.1.map (.inBinding x i), after.2) := by
  rw [Expr.apply, Act.run_bind, h]
  dsimp only
  rw [← map_eq_pure_bind, Act.run_map]
  rfl

theorem Expr.run_letIn_error {e : MarkError}
    (h : (init.apply m commit scope).run w = (.error e, u)) :
    ((Expr.letIn x init body).apply m commit scope).run w = (.error e, u) := by
  rw [Expr.apply, Act.run_bind, h]

theorem shown_inBinding (name : String) (i : Evaluation .int)
    (result : Except MarkError (Evaluation k)) :
    shown (result.map (.inBinding name i)) = (shown result).map fun r =>
      (r.1, fun width => i.account.provenance width ++ r.2 width) := by
  cases result with
  | error e => rfl
  | ok b =>
      refine congrArg Except.ok (Prod.ext rfl (funext fun width => ?_))
      exact Account.provenance_binding ..

variable (m commit init)

/-- A binding is as good as its value. Where a name is read as an integer only, evaluating the body
of its binding comes to evaluating the body with the value written for it: after the initial value
has been evaluated, and not at all if that fails. The two parts can be evaluated apart from each
other if all runners are contained. -/
theorem Expr.letIn_run_subst (free : IntegerAt x body.uses) (scope : Scope) (w : World) :
    let run := ((Expr.letIn x init body).apply m commit scope).run w
    let before := (init.apply m commit scope).run w
    (∀ e, before.1 = .error e → run = (.error e, before.2)) ∧
    ∀ i, before.1 = .ok i →
      let rest := ((body.subst x i.value).apply m commit scope).run before.2
      (run.2 = rest.2 ∧ shown run.1 = (shown rest.1).map fun r =>
        (r.1, fun width => i.account.provenance width ++ r.2 width)) ∧
      (m.Contained → init.Contained m → body.Contained m →
        let first := (init.apply m commit scope).run w.anew
        let second := ((body.subst x i.value).apply m commit scope).run first.2.anew
        first.1 = .ok i ∧ rest.1 = second.1 ∧
          run.2 = ⟨w.files, w.calls ++ first.2.calls ++ second.2.calls,
            w.trace ++ first.2.trace ++ second.2.trace, second.2.made⟩) := by
  intro run before
  rcases hbefore : before with ⟨e | i, u⟩
  · refine ⟨fun e' he => ?_, fun i hi => (nomatch hi)⟩
    cases he
    exact Expr.run_letIn_error hbefore
  refine ⟨fun e he => (nomatch he), fun i' hi => ?_⟩
  cases hi
  intro rest
  have hrun : run = _ := Expr.run_letIn hbefore
  have halike : AlikeRuns true _ rest :=
    body.subst_runs_alike free (scope.gives_bind x i.value) u
  have hworld : run.2 = rest.2 := by
    rw [hrun]
    exact halike.world.symm
  refine ⟨⟨hworld, ?_⟩, fun hm hi hb => ?_⟩
  · rw [hrun, shown_inBinding, halike.outcome.shown_eq]
  · intro first second
    obtain ⟨hfirst, hrest⟩ := (init.apply_keeps hm commit hi scope).run_run
      ((body.subst x i.value).apply_keeps hm commit (hb.subst x i.value) scope) w
    rw [show (init.apply m commit scope).run w = _ from hbefore] at hfirst hrest
    have hrest : rest = _ := hrest
    rw [hworld, hrest]
    exact ⟨hfirst.symm, rfl, rfl⟩

/-- What `x` is in the scope does not matter, and in the body of the inner binding it is another
number. -/
theorem Expr.letIn_run_subst_shadowed :
    let note (name : String) (n : Int64) : Expr .int :=
      .leaf name (.ok ⟨n, .leaf (fun _ => "") fun _ => name⟩)
    let half : Expr .int := .div (.var .int "x") (.letIn "x" (note "two" 2) (.var .int "x"))
    let body : Expr .int := .cond
      (.container (.task "positive" (.compare .less (.int 0) (.var .int "x")))) half (.var .int "x")
    let commit : Commit := ⟨"c", "", none, none, []⟩
    let scope : Scope := .bind .empty "x" (.bool true)
    let run := ((Expr.letIn "x" (note "seven" 7) body).apply .bare commit scope).run (.fresh ⟨[]⟩)
    (IntegerAt "x" body.uses ∧ half.subst "x" 7 =
        .div (.int 7) (.letIn "x" (note "two" 2) (.var .int "x"))) ∧
      (shown run.1).map (fun r => (r.1, r.2 80)) = .ok ((3 : Int64), "seventwo") ∧
      run.2.trace = ["seven", "two"] := by
  intro note half body commit scope run
  have free : IntegerAt "x" body.uses := by decide
  have hm : Machine.bare.Contained := fun r hr => nomatch hr
  obtain ⟨-, hok⟩ :=
    Expr.letIn_run_subst .bare commit (note "seven" 7) free scope (.fresh ⟨[]⟩)
  obtain ⟨⟨-, hshown⟩, hapart⟩ := hok ⟨7, .leaf (fun _ => "") fun _ => "seven"⟩ rfl
  have hb : body.Contained .bare :=
    ⟨⟨trivial, trivial⟩, ⟨trivial, trivial, trivial⟩, trivial⟩
  obtain ⟨-, -, hworld⟩ := hapart hm trivial hb
  refine ⟨⟨free, rfl⟩, ?_, ?_⟩
  · rw [show shown run.1 = _ from hshown]
    rfl
  · rw [show run.2 = _ from hworld]
    decide +kernel

end Runs

end CommitMarking
