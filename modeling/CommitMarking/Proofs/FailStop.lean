import CommitMarking.Proofs.Course

namespace CommitMarking

/-- A place in an expression where something outside of it comes in. -/
inductive Site
  | generator (name : String)
  | task (name : String)
  deriving DecidableEq, Repr

def Generator.parts : {k : Kind} → Generator k → List Site
  | _, .task name _ => [.generator name]
  | _, .refuse name _ => [.generator name]
  | _, .runner r => [.generator r.name]
  | _, .andAll lhs rhs => lhs.parts ++ rhs.parts

mutual

def Expr.sites : {k : Kind} → Expr k → List Site
  | _, .int _ | _, .size | _, .first | _, .var _ _ => []
  | _, .div lhs rhs | _, .compare _ lhs rhs => lhs.sites ++ rhs.sites
  | _, .and lhs rhs => lhs.sites ++ rhs.sites
  | _, .abs inner => inner.sites
  | _, .letIn _ init body => init.sites ++ body.sites
  | _, .cond condition yes no => condition.sites ++ (yes.sites ++ no.sites)
  | _, .leaf name _ => [.task name]
  | _, .container g => g.parts ++ g.sites

def Generator.sites : {k : Kind} → Generator k → List Site
  | _, .task _ expr => expr.sites
  | _, .refuse _ _ => []
  | _, .runner r => [.task r.name]
  | _, .andAll lhs rhs => lhs.sites ++ rhs.sites

end

namespace Event

def site? : Event → Option Site
  | asked name _ _ _ _ => some (.generator name)
  | applied name _ _ _ _ => some (.task name)
  | _ => none

inductive SiteFails : Event → MarkError → World → Prop
  | asked (name : String) (dir : Location) (before : World) (e : MarkError) (after : World) :
      SiteFails (.asked name dir before (.error e) after) e after
  | applied {k : Kind} (name : String) (dir : Option Location) (before : World) (e : MarkError)
      (after : World) : SiteFails (.applied (k := k) name dir before (.error e) after) e after

inductive NodeFails : Event → MarkError → Prop
  | unbound (k : Kind) (name : String) :
      NodeFails (.looked k name (.error (.unboundVariable name))) (.unboundVariable name)
  | mismatch (k : Kind) (name : String) :
      NodeFails (.looked k name (.error (.typeMismatch name k))) (.typeMismatch name k)
  | arithmetic {k : Kind} (fault : ArithmeticFault) :
      NodeFails (.computed (k := k) (.error (.arithmetic fault))) (.arithmetic fault)

def noted : Event → List String
  | asked _ _ before _ after | applied _ _ before _ after => after.trace.drop before.trace.length
  | _ => []

def launched : Event → List Call
  | asked _ _ before _ after | applied _ _ before _ after => after.calls.drop before.calls.length
  | _ => []

def Adds : Event → Prop
  | asked _ _ before _ after | applied _ _ before _ after =>
      before.trace <+: after.trace ∧ before.calls <+: after.calls
  | _ => True

variable {ev : Event} {e : MarkError} {u v w : World}

theorem SiteFails.failure?_eq (h : ev.SiteFails e u) : ev.failure? = some e := by
  cases h <;> rfl

theorem SiteFails.eq_of_step (h : ev.SiteFails e u) (hs : ev.Step w v) : v = u := by
  cases h <;> cases hs <;> rfl

theorem Step.fails (h : ev.Step w v) (he : ev.failure? = some e) :
    ev.SiteFails e v ∨ ev.NodeFails e := by
  cases h with
  | opened | started | measured | computed | closed => cases he
  | asked name dir w result v =>
      cases result with
      | ok _ => cases he
      | error e => cases he; exact .inl (.asked ..)
  | leaf name w result =>
      cases result with
      | ok _ => cases he
      | error e => cases he; exact .inl (.applied ..)
  | ran name dir w result v =>
      cases result with
      | ok _ => cases he
      | error e => cases he; exact .inl (.applied ..)
  | faulted fault => cases he; exact .inr (.arithmetic fault)
  | looked k name scope =>
      revert he
      unfold Scope.get
      split
      · rintro ⟨⟩; exact .inr (.unbound k name)
      · split
        · rintro ⟨⟩
        · rintro ⟨⟩; exact .inr (.mismatch k name)

theorem Step.noted_eq (h : ev.Step w v) (ha : ev.Adds) :
    v.trace = w.trace ++ ev.noted ∧ v.calls = w.calls ++ ev.launched := by
  cases h with
  | opened | started | measured | looked | computed | faulted | closed =>
      simp [noted, launched]
  | asked | ran =>
      obtain ⟨⟨t, ht⟩, c, hc⟩ := ha
      simp [noted, launched, ← ht, ← hc]
  | leaf => simp [noted, launched]

end Event

section Chains

variable {σ : Type} {step : Event → σ → σ → Prop} {s t u : σ} {w v : World} {xs ys : List Event}

theorem Along.split (h : Along step s (xs ++ ys) u) :
    ∃ t, Along step s xs t ∧ Along step t ys u := by
  induction xs generalizing s with
  | nil => exact ⟨s, .nil s, h⟩
  | cons ev xs ih =>
      cases h with
      | cons first rest =>
          obtain ⟨t, hx, hy⟩ := ih rest
          exact ⟨t, .cons first hx, hy⟩

theorem Along.exists_step {ev : Event} (h : Along step s xs t) (hev : ev ∈ xs) :
    ∃ a b, step ev a b := by
  induction h with
  | nil => cases hev
  | cons first _ ih =>
      rcases List.mem_cons.1 hev with rfl | hev
      · exact ⟨_, _, first⟩
      · exact ih hev

theorem Along.noted_eq (h : Chained w xs v) (ha : ∀ ev ∈ xs, ev.Adds) :
    v.trace = w.trace ++ xs.flatMap Event.noted ∧
      v.calls = w.calls ++ xs.flatMap Event.launched := by
  induction h with
  | nil => simp
  | cons first _ ih =>
      rw [List.forall_mem_cons] at ha
      obtain ⟨ht, hc⟩ := first.noted_eq ha.1
      obtain ⟨iht, ihc⟩ := ih ha.2
      simp [iht, ihc, ht, hc]

theorem Along.records_closings (h : Chained w xs v) (hc : ∀ c ∈ xs, ∃ dir, c = .closed dir) :
    v.trace = w.trace ∧ v.calls = w.calls := by
  induction h with
  | nil => exact ⟨rfl, rfl⟩
  | cons first _ ih =>
      rw [List.forall_mem_cons] at hc
      obtain ⟨⟨dir, rfl⟩, hc⟩ := hc
      cases first
      exact ih hc

end Chains

section Order

variable (m : Machine) (commit : Commit)

theorem Act.onward_sites {α : Type} {act : Act MarkError α} {w : World}
    {events : α → World → List Event} {sites : List Site}
    (h : ∀ a v, ((events a v).filterMap Event.site?).Sublist sites) :
    ((act.onward w events).filterMap Event.site?).Sublist sites := by
  unfold onward
  split
  · exact h _ _
  · exact List.nil_sublist _

theorem Generator.preparation_sites (dir : Location) : {k : Kind} → (g : Generator k) →
    (w : World) → ((g.preparation m dir w).filterMap Event.site?).Sublist g.parts
  | _, .task _ _, _ | _, .refuse _ _, _ | _, .runner _, _ => .refl _
  | _, .andAll lhs rhs, w => by
      rw [preparation, List.filterMap_append]
      exact (lhs.preparation_sites dir w).append
        (Act.onward_sites fun _ u => rhs.preparation_sites dir u)

mutual

/-- An evaluation comes to the sites from left to right, and to each of them once at most. -/
theorem Expr.course_sites : {k : Kind} → (e : Expr k) → (scope : Scope) → (w : World) →
    ((e.course m commit scope w).filterMap Event.site?).Sublist e.sites
  | _, .int _, _, _ | _, .size, _, _ | _, .first, _, _ | _, .var _ _, _, _
  | _, .leaf _ _, _, _ => by
      rw [Expr.course, Expr.sites]
      exact .refl _
  | _, .div lhs rhs, scope, w | _, .compare _ lhs rhs, scope, w => by
      rw [Expr.course, Expr.sites, List.filterMap_append]
      refine (lhs.course_sites scope w).append (Act.onward_sites fun l u => ?_)
      rw [List.filterMap_append, ← List.append_nil rhs.sites]
      exact (rhs.course_sites scope u).append (Act.onward_sites fun _ _ => .refl _)
  | _, .and lhs rhs, scope, w => by
      rw [Expr.course, Expr.sites, List.filterMap_append]
      refine (lhs.course_sites scope w).append (Act.onward_sites fun l u => ?_)
      cases l.value with
      | false => exact List.nil_sublist _
      | true => exact rhs.course_sites scope u
  | _, .abs inner, scope, w => by
      rw [Expr.course, Expr.sites, List.filterMap_append, ← List.append_nil inner.sites]
      exact (inner.course_sites scope w).append (Act.onward_sites fun _ _ => .refl _)
  | _, .letIn name init body, scope, w => by
      rw [Expr.course, Expr.sites, List.filterMap_append]
      exact (init.course_sites scope w).append
        (Act.onward_sites fun i u => body.course_sites (scope.bind name (.of _ i.value)) u)
  | _, .cond condition yes no, scope, w => by
      rw [Expr.course, Expr.sites, List.filterMap_append]
      refine (condition.course_sites scope w).append (Act.onward_sites fun c u => ?_)
      cases c.value with
      | true => exact (yes.course_sites scope u).trans (List.sublist_append_left _ _)
      | false => exact (no.course_sites scope u).trans (List.sublist_append_right _ _)
  | _, .container g, scope, w => by
      simp only [Expr.course, Expr.sites, List.filterMap_append, List.filterMap_cons, Event.site?,
        List.filterMap_nil, List.append_nil]
      refine (g.preparation_sites m _ _).append (Act.onward_sites fun _ u => ?_)
      exact g.course_sites scope _ u

theorem Generator.course_sites : {k : Kind} → (g : Generator k) → (scope : Scope) →
    (dir : Location) → (w : World) →
    ((g.course m commit scope dir w).filterMap Event.site?).Sublist g.sites
  | _, .task _ expr, scope, _, w => by
      rw [Generator.course, Generator.sites]
      exact expr.course_sites scope w
  | _, .refuse _ _, _, _, _ | _, .runner _, _, _, _ => by
      rw [Generator.course, Generator.sites]
      exact .refl _
  | _, .andAll lhs rhs, scope, dir, w => by
      rw [Generator.course, Generator.sites, List.filterMap_append]
      refine (lhs.course_sites scope dir w).append (Act.onward_sites fun l u => ?_)
      cases l.value with
      | false => exact List.nil_sublist _
      | true => exact rhs.course_sites scope dir u

end

/-- An event that fails is the one that the evaluation ended at. -/
theorem Ended.eq_of_fails {α : Type} {events : List Event} {result : Except MarkError α}
    {ev : Event} {e : MarkError} (h : Ended events result) (hev : ev ∈ events) (he : ev.failure? = some e) :
    result = .error e ∧ ∃ done closings, events = done ++ ev :: closings ∧ Quiet done ∧
      ∀ c ∈ closings, ∃ dir, c = .closed dir := by
  cases result with
  | ok a => cases (h ev hev).symm.trans he
  | error e' =>
      obtain ⟨done, last, closings, rfl, hd, hl, hc⟩ := h
      rcases List.mem_append.1 hev with hm | hm
      · cases (hd ev hm).symm.trans he
      rcases List.mem_cons.1 hm with rfl | hm
      · cases hl.symm.trans he
        exact ⟨rfl, done, closings, rfl, hd, hc⟩
      · obtain ⟨dir, rfl⟩ := hc ev hm
        cases he

theorem Follows.exists_fails {α : Type} {w : World} {events : List Event}
    {run : Except MarkError α × World} {e : MarkError} (h : Follows w events run)
    (he : run.1 = .error e) : ∃ ev ∈ events, (∃ after, ev.SiteFails e after) ∨ ev.NodeFails e := by
  have hended := h.ended
  rw [he] at hended
  obtain ⟨done, ev, closings, hsplit, -, hf, -⟩ := hended
  have hev : ev ∈ events := by simp [hsplit]
  obtain ⟨u, v, hstep⟩ := h.chained.exists_step hev
  exact ⟨ev, hev, (hstep.fails hf).imp_left fun hs => ⟨v, hs⟩⟩

/-- An evaluation is fail-stop. It comes to its sites in their order and leaves behind what they
leave; the first of them that fails ends it with its error, and nothing is applied, asked or started
after that. If none fails it gives a value, or the error of one of its own nodes. -/
theorem Expr.fail_stop {k : Kind} (e : Expr k) (scope : Scope) (w : World) :
    let run := (e.apply m commit scope).run w
    let course := e.course m commit scope w
    (Chained w course run.2 ∧ (course.filterMap Event.site?).Sublist e.sites ∧
      ((∀ ev ∈ course, ev.Adds) →
        run.2.trace = w.trace ++ course.flatMap Event.noted ∧
          run.2.calls = w.calls ++ course.flatMap Event.launched)) ∧
    (∀ ev ∈ course, ∀ error after, ev.SiteFails error after →
      run.1 = .error error ∧ (run.2.trace = after.trace ∧ run.2.calls = after.calls) ∧
        ∃ done closings, course = done ++ ev :: closings ∧ Quiet done ∧
          ∀ c ∈ closings, ∃ dir, c = .closed dir) ∧
    ((∀ ev ∈ course, ∀ error after, ¬ev.SiteFails error after) →
      (∃ a, run.1 = .ok a) ∨ ∃ ev ∈ course, ∃ error, ev.NodeFails error ∧ run.1 = .error error) := by
  intro run course
  have h : Follows w course run := e.course_follows m commit scope w
  refine ⟨⟨h.chained, e.course_sites m commit scope w, h.chained.noted_eq⟩, ?_, ?_⟩
  · intro ev hev error after hf
    obtain ⟨hrun, done, closings, hsplit, hd, hc⟩ := h.ended.eq_of_fails hev hf.failure?_eq
    have hchain := h.chained
    rw [hsplit] at hchain
    obtain ⟨u, -, hlast⟩ := hchain.split
    cases hlast with
    | cons step rest =>
        obtain rfl := hf.eq_of_step step
        exact ⟨hrun, rest.records_closings hc, done, closings, hsplit, hd, hc⟩
  · intro hnone
    cases hrun : run.1 with
    | ok a => exact .inl ⟨a, rfl⟩
    | error error =>
        obtain ⟨ev, hev, ⟨after, hs⟩ | hn⟩ := h.exists_fails hrun
        · exact (hnone ev hev error after hs).elim
        · exact .inr ⟨ev, hev, error, hn, rfl⟩

end Order

theorem Expr.fail_stop_in_container :
    let suite : Expr .bool := .leaf "suite" (.error (.io .notFound))
    let g : Generator .bool :=
      .andAll (.task "build" (.leaf "compile" (.ok ⟨true, .nothing⟩))) (.task "test" suite)
    let e : Expr .int := .cond (.container g) (.leaf "worth" (.ok ⟨1, .nothing⟩)) (.int (-1))
    let run := (e.apply .bare ⟨"c", "", none, none, []⟩ .empty).run (.fresh ⟨[]⟩)
    let course := e.course .bare ⟨"c", "", none, none, []⟩ .empty (.fresh ⟨[]⟩)
    (∃ ev ∈ course, ∃ error after, ev.SiteFails error after) ∧
      run.1 = .error (.io .notFound) ∧ run.2.trace = ["compile", "suite"] := by
  intro suite g e run course
  let opened (trace : List String) : World :=
    ⟨⟨[(["tmp", "gitmark-00"], .directory)]⟩, [], trace, ["gitmark-00"]⟩
  have hev : course[5]? = some (.applied (k := .bool) "suite" none (opened ["compile"])
      (.error (.io .notFound)) (opened ["compile", "suite"])) := by rfl
  have hf : Event.SiteFails _ _ _ := .applied (k := .bool) "suite" none (opened ["compile"])
    (.io .notFound) (opened ["compile", "suite"])
  obtain ⟨hrun, ⟨htrace, -⟩, -⟩ :=
    (e.fail_stop .bare ⟨"c", "", none, none, []⟩ .empty (.fresh ⟨[]⟩)).2.1 _
      (List.mem_of_getElem? hev) _ _ hf
  exact ⟨⟨_, List.mem_of_getElem? hev, _, _, hf⟩, hrun, htrace⟩

end CommitMarking
