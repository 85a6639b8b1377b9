import CommitMarking.Eval

namespace CommitMarking

/-- What happens in the course of an evaluation. A part of a generator is asked for its task, and a
leaf or the task of a runner is applied; all else is done by the expression itself. -/
inductive Event
  | opened (dir : Location) (files : FileTree)
  | asked (name : String) (dir : Location) (before : World) (result : Except MarkError Unit)
      (after : World)
  | started (dir : Location) (files : FileTree)
  | applied {k : Kind} (name : String) (dir : Option Location) (before : World)
      (result : Except MarkError (Evaluation k)) (after : World)
  | measured (commit : Commit)
  | looked (k : Kind) (name : String) (result : Except MarkError k.Carrier)
  | computed {k : Kind} (result : Except MarkError k.Carrier)
  | closed (dir : Location)

def failureOf? {α : Type} : Except MarkError α → Option MarkError
  | .ok _ => none
  | .error e => some e

namespace Event

def failure? : Event → Option MarkError
  | asked _ _ _ result _ => failureOf? result
  | applied _ _ _ result _ => failureOf? result
  | looked _ _ result => failureOf? result
  | computed result => failureOf? result
  | opened _ _ | started _ _ | measured _ | closed _ => none

inductive Step : Event → World → World → Prop
  | opened (s : Scratch) (w : World) :
      Step (.opened (s.directory w) (s.opened w).files) w (s.opened w)
  | asked (name : String) (dir : Location) (w : World) (result : Except MarkError Unit)
      (v : World) : Step (.asked name dir w result v) w v
  | started (dir : Location) (w : World) : Step (.started dir w.files) w w
  | leaf {k : Kind} (name : String) (w : World) (result : Except MarkError (Evaluation k)) :
      Step (.applied name none w result { w with trace := w.trace ++ [name] }) w
        { w with trace := w.trace ++ [name] }
  | ran {k : Kind} (name : String) (dir : Location) (w : World)
      (result : Except MarkError (Evaluation k)) (v : World) :
      Step (.applied name (some dir) w result v) w v
  | measured (commit : Commit) (w : World) : Step (.measured commit) w w
  | looked (k : Kind) (name : String) (scope : Scope) (w : World) :
      Step (.looked k name (scope.get k name)) w w
  | computed {k : Kind} (value : k.Carrier) (w : World) : Step (.computed (.ok value)) w w
  | faulted {k : Kind} (fault : ArithmeticFault) (w : World) :
      Step (.computed (k := k) (.error (.arithmetic fault))) w w
  | closed (dir : Location) (w : World) :
      Step (.closed dir) w { w with files := w.files.remove dir }

end Event

inductive Along {σ : Type} (step : Event → σ → σ → Prop) : σ → List Event → σ → Prop
  | nil (s : σ) : Along step s [] s
  | cons {ev : Event} {events : List Event} {s t u : σ} (first : step ev s t)
      (rest : Along step t events u) : Along step s (ev :: events) u

/-- Nothing happens to the world but in these events. -/
abbrev Chained : World → List Event → World → Prop := Along Event.Step

section Along

variable {σ : Type} {step : Event → σ → σ → Prop} {s t u : σ} {xs ys : List Event}

theorem Along.append (h : Along step s xs t) (hy : Along step t ys u) :
    Along step s (xs ++ ys) u := by
  induction h with
  | nil => exact hy
  | cons first _ ih => exact .cons first (ih hy)

theorem Along.single {ev : Event} (h : step ev s t) : Along step s [ev] t := .cons h (.nil t)

end Along

def Quiet (events : List Event) : Prop := ∀ ev ∈ events, ev.failure? = none

/-- An evaluation ends at the first event that fails, with its error. After that directories are
closed, and nothing else happens. -/
def Ended {α : Type} (events : List Event) : Except MarkError α → Prop
  | .ok _ => Quiet events
  | .error e =>
      ∃ done ev closings, events = done ++ ev :: closings ∧ Quiet done ∧ ev.failure? = some e ∧
        ∀ c ∈ closings, ∃ dir, c = .closed dir

structure Follows {α : Type} (w : World) (events : List Event) (run : Except MarkError α × World) :
    Prop where
  chained : Chained w events run.2
  ended : Ended events run.1

def Act.onward {α : Type} (act : Act MarkError α) (w : World)
    (events : α → World → List Event) : List Event :=
  match act.run w with
  | (.ok a, v) => events a v
  | (.error _, _) => []

theorem Act.mem_onward {α : Type} {act : Act MarkError α} {w : World}
    {events : α → World → List Event} {ev : Event} (h : ev ∈ act.onward w events) :
    ∃ a v, act.run w = (.ok a, v) ∧ ev ∈ events a v := by
  unfold onward at h
  rcases hr : act.run w with ⟨e | a, v⟩
  · rw [hr] at h
    cases h
  · rw [hr] at h
    exact ⟨a, v, rfl, h⟩

def Generator.preparation (m : Machine) (dir : Location) {k : Kind} :
    Generator k → World → List Event
  | .task name _, w => [.asked name dir w (.ok ()) w]
  | .refuse name error, w =>
      [.asked name dir w (.error error) { w with trace := w.trace ++ [name] }]
  | .runner r, w =>
      let run := (r.prepare m dir).run w
      [.asked r.name dir w run.1 run.2]
  | .andAll lhs rhs, w =>
      lhs.preparation m dir w ++ (lhs.prepare m dir).onward w fun _ v => rhs.preparation m dir v

mutual

def Expr.course (m : Machine) (commit : Commit) : {k : Kind} → Expr k → Scope → World → List Event
  | _, .int n, _, _ => [.computed (k := .int) (.ok n)]
  | _, .size, _, _ => [.measured commit]
  | _, .div lhs rhs, scope, w =>
      lhs.course m commit scope w ++ (lhs.apply m commit scope).onward w fun l u =>
        rhs.course m commit scope u ++ (rhs.apply m commit scope).onward u fun r _ =>
          [.computed (k := .int) (divide (Expr.div lhs rhs).name l.value r.value)]
  | _, .abs inner, scope, w =>
      inner.course m commit scope w ++ (inner.apply m commit scope).onward w fun e _ =>
        [.computed (k := .int) (absolute (Expr.abs inner).name e.value)]
  | _, .first, _, _ => [.computed (k := .bool) (.ok commit.isFirst)]
  | _, .compare op lhs rhs, scope, w =>
      lhs.course m commit scope w ++ (lhs.apply m commit scope).onward w fun l u =>
        rhs.course m commit scope u ++ (rhs.apply m commit scope).onward u fun r _ =>
          [.computed (k := .bool) (.ok (op.holds l.value r.value))]
  | _, .and lhs rhs, scope, w =>
      lhs.course m commit scope w ++ (lhs.apply m commit scope).onward w fun l u =>
        match l.value with
        | false => []
        | true => rhs.course m commit scope u
  | _, .var k name, scope, _ => [.looked k name (scope.get k name)]
  | _, .letIn name init body, scope, w =>
      init.course m commit scope w ++ (init.apply m commit scope).onward w fun i u =>
        body.course m commit (scope.bind name (.of _ i.value)) u
  | _, .cond condition yes no, scope, w =>
      condition.course m commit scope w ++ (condition.apply m commit scope).onward w fun c u =>
        match c.value with
        | true => yes.course m commit scope u
        | false => no.course m commit scope u
  | _, .leaf name ending, _, w =>
      [.applied name none w ending { w with trace := w.trace ++ [name] }]
  | _, .container g, scope, w =>
      let dir := m.scratch.directory w
      let u := m.scratch.opened w
      .opened dir u.files ::
        (g.preparation m dir u ++ (g.prepare m dir).onward u fun _ v =>
          .started dir v.files :: g.course m commit scope dir v) ++ [.closed dir]

def Generator.course (m : Machine) (commit : Commit) :
    {k : Kind} → Generator k → Scope → Location → World → List Event
  | _, .task _ expr, scope, _, w => expr.course m commit scope w
  | _, .refuse _ _, _, _, _ => []
  | _, .runner r, _, dir, w =>
      let run := (r.run m commit dir).run w
      [.applied r.name (some dir) w run.1 run.2]
  | _, .andAll lhs rhs, scope, dir, w =>
      lhs.course m commit scope dir w ++ (lhs.apply m commit scope dir).onward w fun l u =>
        match l.value with
        | false => []
        | true => rhs.course m commit scope dir u

end

theorem Quiet.append {xs ys : List Event} (hx : Quiet xs) (hy : Quiet ys) : Quiet (xs ++ ys) :=
  fun ev hev => (List.mem_append.1 hev).elim (hx ev) (hy ev)

theorem Quiet.single {ev : Event} (h : ev.failure? = none) : Quiet [ev] := by
  simpa [Quiet] using h

theorem Ended.after {α : Type} {xs ys : List Event} {result : Except MarkError α} (hx : Quiet xs)
    (hy : Ended ys result) : Ended (xs ++ ys) result := by
  cases result with
  | ok a => exact hx.append hy
  | error e =>
      obtain ⟨done, ev, closings, rfl, hd, he, hc⟩ := hy
      exact ⟨xs ++ done, ev, closings, by rw [List.append_assoc], hx.append hd, he, hc⟩

theorem Ended.close {α : Type} {xs : List Event} {result : Except MarkError α}
    (h : Ended xs result) (dir : Location) : Ended (xs ++ [.closed dir]) result := by
  cases result with
  | ok a => exact h.append (.single rfl)
  | error e =>
      obtain ⟨done, ev, closings, rfl, hd, he, hc⟩ := h
      refine ⟨done, ev, closings ++ [.closed dir], by simp, hd, he, fun c hm => ?_⟩
      exact (List.mem_append.1 hm).elim (hc c) fun hm => ⟨dir, List.mem_singleton.1 hm⟩

namespace Follows

variable {α β : Type} {w u v : World} {xs ys : List Event}

theorem single {ev : Event} {result : Except MarkError α} (h : ev.Step w v)
    (he : ev.failure? = failureOf? result) : Follows w [ev] (result, v) := by
  refine ⟨.single h, ?_⟩
  cases result with
  | ok a => exact .single he
  | error e => exact ⟨[], ev, [], rfl, by simp [Quiet], he, by simp⟩

theorem pure (a : α) (w : World) : Follows w [] ((Pure.pure a : Act MarkError α).run w) :=
  ⟨.nil w, by simp [Quiet, Ended]⟩

theorem after {run : Except MarkError α × World} (h : Chained w xs u) (hx : Quiet xs)
    (hy : Follows u ys run) : Follows w (xs ++ ys) run :=
  ⟨h.append hy.chained, hy.ended.after hx⟩

theorem bind {act : Act MarkError α} {next : α → Act MarkError β} {ys : α → World → List Event}
    (h : Follows w xs (act.run w))
    (hn : ∀ a u, act.run w = (.ok a, u) → Follows u (ys a u) ((next a).run u)) :
    Follows w (xs ++ act.onward w ys) ((act >>= next).run w) := by
  rw [Act.run_bind]
  unfold Act.onward
  rcases hr : act.run w with ⟨e | a, u⟩
  · rw [hr] at h
    rw [List.append_nil]
    exact ⟨h.chained, h.ended⟩
  · rw [hr] at h
    exact .after h.chained h.ended (hn a u hr)

theorem map {act : Act MarkError α} (f : α → β) (h : Follows w xs (act.run w)) :
    Follows w xs ((act >>= fun a => Pure.pure (f a)).run w) := by
  have hb : Follows w (xs ++ act.onward w fun _ _ => []) _ := h.bind fun a u _ => pure (f a) u
  unfold Act.onward at hb
  split at hb <;> rwa [List.append_nil] at hb

/-- A directory is opened before all else that is done in it, and closed after that. -/
theorem inScratch {act : Location → Act MarkError α} {ys : Location → World → List Event}
    (s : Scratch) (w : World) (h : ∀ dir u, Follows u (ys dir u) ((act dir).run u)) :
    let dir := s.directory w
    let u := s.opened w
    Follows w (.opened dir u.files :: ys dir u ++ [.closed dir])
      ((World.inScratch s act).run w) := by
  intro dir u
  have hopen : Event.Step (.opened dir u.files) w u := .opened s w
  have hact : Follows w (.opened dir u.files :: ys dir u) ((act dir).run u) :=
    .after (.single hopen) (.single rfl) (h dir u)
  rw [World.run_inScratch]
  exact ⟨hact.chained.append (.single (.closed dir _)), hact.ended.close dir⟩

end Follows

variable (m : Machine) (commit : Commit)

theorem Generator.preparation_follows (dir : Location) : {k : Kind} → (g : Generator k) →
    (w : World) → Follows w (g.preparation m dir w) ((g.prepare m dir).run w)
  | _, .task name _, w => .single (.asked name dir w _ w) rfl
  | _, .refuse name _, w => .single (.asked name dir w _ _) rfl
  | _, .runner r, w => .single (.asked r.name dir w _ _) rfl
  | _, .andAll lhs rhs, w =>
      (lhs.preparation_follows dir w).bind fun _ u _ => rhs.preparation_follows dir u

def Generator.Makes : {k : Kind} → Generator k → Prop
  | _, .task _ _ | _, .runner _ => True
  | _, .refuse _ _ => False
  | _, .andAll lhs rhs => lhs.Makes ∧ rhs.Makes

theorem Generator.makes_of_prepare {dir : Location} : {k : Kind} → {g : Generator k} →
    {w v : World} → (g.prepare m dir).run w = (.ok (), v) → g.Makes
  | _, .task _ _, _, _, _ => trivial
  | _, .runner _, _, _, _ => trivial
  | _, .refuse _ _, _, _, h => by cases h
  | _, .andAll lhs rhs, w, v, h => by
      rw [prepare, Act.run_bind] at h
      rcases hl : (lhs.prepare m dir).run w with ⟨e | _, u⟩
      · rw [hl] at h
        cases h
      · rw [hl] at h
        exact ⟨makes_of_prepare hl, makes_of_prepare h⟩

theorem Event.step_divide (task : String) (a b : Int64) (w : World) :
    (Event.computed (k := .int) (divide task a b)).Step w w := by
  unfold divide
  split
  · exact .faulted _ w
  · split
    · exact .faulted _ w
    · exact .computed (k := .int) (a / b) w

theorem Event.step_absolute (task : String) (a : Int64) (w : World) :
    (Event.computed (k := .int) (absolute task a)).Step w w := by
  unfold absolute
  split
  · exact .faulted _ w
  · exact .computed (k := .int) _ w

theorem failureOf?_bind_pure {α β : Type} (result : Except MarkError α) (f : α → β) :
    failureOf? (result >>= fun a => pure (f a)) = failureOf? result := by
  cases result <;> rfl

theorem Act.run_leaf {α : Type} (name : String) (ending : Except MarkError α) (w : World) :
    (Act.leaf name ending).run w = (ending, { w with trace := w.trace ++ [name] }) := by
  cases ending <;> rfl

mutual

theorem Expr.course_follows : {k : Kind} → (e : Expr k) → (scope : Scope) → (w : World) →
    Follows w (e.course m commit scope w) ((e.apply m commit scope).run w)
  | _, .int _, _, w => by
      rw [Expr.apply, Expr.course]
      exact .single (.computed _ w) rfl
  | _, .first, _, w => by
      rw [Expr.apply, Expr.course]
      exact .single (.computed _ w) rfl
  | _, .size, _, w => by
      rw [Expr.apply, Expr.course]
      exact .single (.measured commit w) rfl
  | _, .var k name, scope, w => by
      rw [Expr.apply, Expr.course]
      refine .map _ ?_
      rw [Act.run_lift]
      exact .single (.looked k name scope w) rfl
  | _, .leaf name ending, _, w => by
      rw [Expr.apply, Expr.course, Act.run_leaf]
      exact .single (.leaf name w ending) rfl
  | _, .div lhs rhs, scope, w => by
      rw [Expr.apply, Expr.course]
      refine (lhs.course_follows scope w).bind fun l u _ =>
        (rhs.course_follows scope u).bind fun r v _ => ?_
      rw [Act.run_lift]
      exact .single (Event.step_divide ..) (failureOf?_bind_pure ..).symm
  | _, .compare op lhs rhs, scope, w => by
      rw [Expr.apply, Expr.course]
      exact (lhs.course_follows scope w).bind fun l u _ =>
        (rhs.course_follows scope u).bind fun r v _ => .single (.computed _ v) rfl
  | _, .and lhs rhs, scope, w => by
      rw [Expr.apply, Expr.course, Act.conjoin]
      refine (lhs.course_follows scope w).bind fun l u _ => ?_
      cases hl : l.value with
      | false => exact .pure _ u
      | true => exact .map _ (rhs.course_follows scope u)
  | _, .abs inner, scope, w => by
      rw [Expr.apply, Expr.course]
      refine (inner.course_follows scope w).bind fun e u _ => ?_
      rw [Act.run_lift]
      exact .single (Event.step_absolute ..) (failureOf?_bind_pure ..).symm
  | _, .letIn name init body, scope, w => by
      rw [Expr.apply, Expr.course]
      exact (init.course_follows scope w).bind fun i u _ =>
        .map _ (body.course_follows (scope.bind name (.of _ i.value)) u)
  | _, .cond condition yes no, scope, w => by
      rw [Expr.apply, Expr.course]
      refine (condition.course_follows scope w).bind fun c u _ => ?_
      cases hc : c.value with
      | true => exact .map _ (yes.course_follows scope u)
      | false => exact .map _ (no.course_follows scope u)
  | _, .container g, scope, w => by
      rw [Expr.apply, Expr.course]
      exact .inScratch m.scratch w fun dir u => (g.preparation_follows m dir u).bind fun _ v hv =>
        .after (.single (.started dir v)) (.single rfl)
          (g.course_follows (g.makes_of_prepare m hv) scope dir v)

theorem Generator.course_follows : {k : Kind} → (g : Generator k) → g.Makes → (scope : Scope) →
    (dir : Location) → (w : World) →
    Follows w (g.course m commit scope dir w) ((g.apply m commit scope dir).run w)
  | _, .task _ expr, _, scope, _, w => by
      rw [Generator.apply, Generator.course]
      exact expr.course_follows scope w
  | _, .refuse _ _, h, _, _, _ => h.elim
  | _, .runner r, _, _, dir, w => by
      rw [Generator.apply, Generator.course]
      exact .single (.ran r.name dir w _ _) rfl
  | _, .andAll lhs rhs, h, scope, dir, w => by
      rw [Generator.apply, Generator.course, Act.conjoin]
      refine (lhs.course_follows h.1 scope dir w).bind fun l u _ => ?_
      cases hl : l.value with
      | false => exact .pure _ u
      | true => exact .map _ (rhs.course_follows h.2 scope dir u)

end

end CommitMarking
