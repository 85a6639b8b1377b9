import CommitMarking.Proofs.Course
import Mathlib.Data.List.Forall2

namespace CommitMarking

/-- What has a provenance of its own: a commit's size, and all that comes into an expression from
outside of it. -/
inductive Leaf
  | size
  | task {k : Kind} (name : String) (ending : Except MarkError (Evaluation k))
  | runner {k : Kind} (r : Runner k)

mutual

def Expr.leaves : {k : Kind} → Expr k → List Leaf
  | _, .int _ | _, .first | _, .var _ _ => []
  | _, .size => [.size]
  | _, .div lhs rhs | _, .compare _ lhs rhs => lhs.leaves ++ rhs.leaves
  | _, .and lhs rhs => lhs.leaves ++ rhs.leaves
  | _, .abs inner => inner.leaves
  | _, .letIn _ init body => init.leaves ++ body.leaves
  | _, .cond condition yes no => condition.leaves ++ (yes.leaves ++ no.leaves)
  | _, .leaf name ending => [.task name ending]
  | _, .container g => g.leaves

def Generator.leaves : {k : Kind} → Generator k → List Leaf
  | _, .task _ expr => expr.leaves
  | _, .refuse _ _ => []
  | _, .runner r => [.runner r]
  | _, .andAll lhs rhs => lhs.leaves ++ rhs.leaves

end

namespace Event

def isApplication : Event → Bool
  | measured _ | applied _ _ _ _ _ => true
  | _ => false

@[simp] def provenance (width : Nat) : Event → String
  | measured commit => commit.sizeProvenance width
  | applied _ _ _ (.ok a) _ => a.account.provenance width
  | _ => ""

end Event

def provenanceOf (width : Nat) (events : List Event) : String :=
  String.join (events.map (Event.provenance width))

section Applications

variable (m : Machine) (commit : Commit)

inductive Leaf.Applied : Leaf → Event → Prop
  | size : Applied .size (.measured commit)
  | task {k : Kind} (name : String) (ending : Except MarkError (Evaluation k)) (w : World) :
      Applied (.task name ending)
        (.applied name none w ending { w with trace := w.trace ++ [name] })
  | runner {k : Kind} (r : Runner k) (dir : Location) (w : World) :
      Applied (.runner r)
        (.applied r.name (some dir) w ((r.run m commit dir).run w).1 ((r.run m commit dir).run w).2)

/-- The applications among the events are those of some of the leaves, one of each, in their order. -/
def Reaches (events : List Event) (leaves : List Leaf) : Prop :=
  ∃ reached : List Leaf, reached.Sublist leaves ∧
    List.Forall₂ (Leaf.Applied m commit) reached (events.filter Event.isApplication)

variable {m : Machine} {commit : Commit}

namespace Reaches

variable {xs ys : List Event} {us vs : List Leaf}

theorem none (h : xs.filter Event.isApplication = []) : Reaches m commit xs us :=
  ⟨[], List.nil_sublist us, h ▸ .nil⟩

theorem skip {ev : Event} (hev : ev.isApplication = false) (h : Reaches m commit xs us) :
    Reaches m commit (ev :: xs) us := by
  obtain ⟨reached, hs, hr⟩ := h
  exact ⟨reached, hs, by rwa [List.filter_cons_of_neg (by simp [hev])]⟩

theorem one {ev : Event} {leaf : Leaf} (h : leaf.Applied m commit ev)
    (hev : ev.isApplication = true) : Reaches m commit [ev] [leaf] := by
  refine ⟨[leaf], .refl _, ?_⟩
  rw [List.filter_cons_of_pos hev, List.filter_nil]
  exact .cons h .nil

theorem append (hx : Reaches m commit xs us) (hy : Reaches m commit ys vs) :
    Reaches m commit (xs ++ ys) (us ++ vs) := by
  obtain ⟨as, hs, ha⟩ := hx
  obtain ⟨bs, ht, hb⟩ := hy
  refine ⟨as ++ bs, hs.append ht, ?_⟩
  rw [List.filter_append]
  exact List.rel_append ha hb

theorem after (hx : xs.filter Event.isApplication = []) (hy : Reaches m commit ys us) :
    Reaches m commit (xs ++ ys) us := by
  have h : Reaches m commit xs [] := none hx
  exact h.append hy

theorem mono (h : Reaches m commit xs us) (hs : us.Sublist vs) : Reaches m commit xs vs := by
  obtain ⟨reached, hr, hx⟩ := h
  exact ⟨reached, hr.trans hs, hx⟩

theorem onward {α : Type} {act : Act MarkError α} {w : World} {events : α → World → List Event}
    (h : ∀ a v, Reaches m commit (events a v) us) : Reaches m commit (act.onward w events) us := by
  unfold Act.onward
  split
  · exact h _ _
  · exact none rfl

end Reaches

variable (m : Machine) (commit : Commit)

theorem Generator.preparation_filter (dir : Location) : {k : Kind} → (g : Generator k) →
    (w : World) → (g.preparation m dir w).filter Event.isApplication = []
  | _, .task _ _, _ | _, .refuse _ _, _ | _, .runner _, _ => rfl
  | _, .andAll lhs rhs, w => by
      rw [preparation, List.filter_append, lhs.preparation_filter dir w, List.nil_append, Act.onward]
      split
      · exact rhs.preparation_filter dir _
      · rfl

mutual

theorem Expr.course_reaches : {k : Kind} → (e : Expr k) → (scope : Scope) → (w : World) →
    Reaches m commit (e.course m commit scope w) e.leaves
  | _, .int _, _, _ | _, .first, _, _ | _, .var _ _, _, _ => by
      rw [Expr.course, Expr.leaves]
      exact .none rfl
  | _, .size, _, _ => by
      rw [Expr.course, Expr.leaves]
      exact .one .size rfl
  | _, .leaf name ending, _, w => by
      rw [Expr.course, Expr.leaves]
      exact .one (.task name ending w) rfl
  | _, .div lhs rhs, scope, w | _, .compare _ lhs rhs, scope, w => by
      rw [Expr.course, Expr.leaves]
      refine (lhs.course_reaches scope w).append (.onward fun l u => ?_)
      rw [← List.append_nil rhs.leaves]
      exact (rhs.course_reaches scope u).append (.onward fun _ _ => .none rfl)
  | _, .abs inner, scope, w => by
      rw [Expr.course, Expr.leaves, ← List.append_nil inner.leaves]
      exact (inner.course_reaches scope w).append (.onward fun _ _ => .none rfl)
  | _, .and lhs rhs, scope, w => by
      rw [Expr.course, Expr.leaves]
      refine (lhs.course_reaches scope w).append (.onward fun l u => ?_)
      cases l.value with
      | false => exact .none rfl
      | true => exact rhs.course_reaches scope u
  | _, .letIn name init body, scope, w => by
      rw [Expr.course, Expr.leaves]
      exact (init.course_reaches scope w).append
        (.onward fun i u => body.course_reaches (scope.bind name (.of _ i.value)) u)
  | _, .cond condition yes no, scope, w => by
      rw [Expr.course, Expr.leaves]
      refine (condition.course_reaches scope w).append (.onward fun c u => ?_)
      cases c.value with
      | true => exact (yes.course_reaches scope u).mono (List.sublist_append_left _ _)
      | false => exact (no.course_reaches scope u).mono (List.sublist_append_right _ _)
  | _, .container g, scope, w => by
      rw [Expr.course, Expr.leaves, ← List.append_nil g.leaves]
      refine Reaches.append (.skip rfl ?_) (.none rfl)
      exact .after (g.preparation_filter m _ _)
        (.onward fun _ u => .skip rfl (g.course_reaches scope _ u))

theorem Generator.course_reaches : {k : Kind} → (g : Generator k) → (scope : Scope) →
    (dir : Location) → (w : World) → Reaches m commit (g.course m commit scope dir w) g.leaves
  | _, .task _ expr, scope, _, w => by
      rw [Generator.course, Generator.leaves]
      exact expr.course_reaches scope w
  | _, .refuse _ _, _, _, _ => by
      rw [Generator.course, Generator.leaves]
      exact .none rfl
  | _, .runner r, _, dir, w => by
      rw [Generator.course, Generator.leaves]
      exact .one (.runner r dir w) rfl
  | _, .andAll lhs rhs, scope, dir, w => by
      rw [Generator.course, Generator.leaves]
      refine (lhs.course_reaches scope dir w).append (.onward fun l u => ?_)
      cases l.value with
      | false => exact .none rfl
      | true => exact rhs.course_reaches scope dir u

end

end Applications

def Tells {k : Kind} (width : Nat) (before : String) (events : List Event)
    (run : Except MarkError (Evaluation k) × World) : Prop :=
  ∀ a v, run = (.ok a, v) →
    a.account.provenance width = before ++ provenanceOf width events

section Texts

variable (width : Nat)

@[simp] theorem provenanceOf_nil : provenanceOf width [] = "" := rfl

@[simp] theorem provenanceOf_cons (ev : Event) (events : List Event) :
    provenanceOf width (ev :: events) = ev.provenance width ++ provenanceOf width events := by
  simp [provenanceOf]

@[simp] theorem provenanceOf_append (xs ys : List Event) :
    provenanceOf width (xs ++ ys) = provenanceOf width xs ++ provenanceOf width ys := by
  simp [provenanceOf]

theorem provenanceOf_filter (events : List Event) :
    provenanceOf width (events.filter Event.isApplication) = provenanceOf width events := by
  induction events with
  | nil => rfl
  | cons ev events ih =>
      cases ev <;> simp [List.filter_cons, Event.isApplication, ih]

end Texts

theorem Evaluation.provenance_of_quotient {task : String} {l r a : Evaluation .int} {width : Nat}
    (h : l.quotient task r = .ok a) :
    a.account.provenance width = l.account.provenance width ++ r.account.provenance width := by
  unfold quotient at h
  cases hq : divide task l.value r.value with
  | error e => rw [hq] at h; cases h
  | ok q =>
      rw [hq] at h
      cases h
      simp

theorem Evaluation.provenance_of_absolute {task : String} {inner a : Evaluation .int} {width : Nat}
    (h : inner.absolute task = .ok a) :
    a.account.provenance width = inner.account.provenance width := by
  unfold Evaluation.absolute at h
  cases hv : CommitMarking.absolute task inner.value with
  | error e => rw [hv] at h; cases h
  | ok v =>
      rw [hv] at h
      cases h
      simp

namespace Tells

variable {i k : Kind} {width : Nat} {before : String} {xs ys : List Event} {w : World}

theorem done {x : Except MarkError (Evaluation k)} {v : World}
    (h : ∀ a, x = .ok a → a.account.provenance width = before ++ provenanceOf width xs) :
    Tells width before xs (x, v) := by
  intro a u heq
  exact h a (congrArg Prod.fst heq)

theorem bind {act : Act MarkError (Evaluation i)} {next : Evaluation i → Act MarkError (Evaluation k)}
    {ys : Evaluation i → World → List Event} (h : Tells width "" xs (act.run w))
    (hn : ∀ a u, act.run w = (.ok a, u) →
      Tells width (before ++ a.account.provenance width) (ys a u) ((next a).run u)) :
    Tells width before (xs ++ act.onward w ys) ((act >>= next).run w) := by
  rw [Act.run_bind]
  unfold Act.onward
  rcases hr : act.run w with ⟨e | a, u⟩
  · rintro b v ⟨⟩
  · intro b v hb
    have ha := h a u hr
    rw [String.empty_append] at ha
    rw [provenanceOf_append, ← String.append_assoc, ← ha]
    exact hn a u hr b v hb

theorem skip {ev : Event} {run : Except MarkError (Evaluation k) × World}
    (hev : ev.provenance width = "") (h : Tells width before xs run) :
    Tells width before (ev :: xs) run := by
  intro a v hr
  rw [provenanceOf_cons, hev, String.empty_append]
  exact h a v hr

theorem prepared {act : Act MarkError Unit} {next : Unit → Act MarkError (Evaluation k)}
    {ys : Unit → World → List Event} (hx : provenanceOf width xs = "")
    (hn : ∀ u, act.run w = (.ok (), u) → Tells width before (ys () u) ((next ()).run u)) :
    Tells width before (xs ++ act.onward w ys) ((act >>= next).run w) := by
  rw [Act.run_bind]
  unfold Act.onward
  rcases hr : act.run w with ⟨e | _, u⟩
  · rintro b v ⟨⟩
  · intro b v hb
    rw [provenanceOf_append, hx, String.empty_append]
    exact hn u hr b v hb

theorem inScratch {act : Location → Act MarkError (Evaluation k)}
    {ys : Location → World → List Event} (s : Scratch) (w : World)
    (h : ∀ dir u, Tells width before (ys dir u) ((act dir).run u)) :
    let dir := s.directory w
    let u := s.opened w
    Tells width before (.opened dir u.files :: ys dir u ++ [.closed dir])
      ((World.inScratch s act).run w) := by
  intro dir u
  rw [World.run_inScratch]
  refine .done fun a ha => ?_
  have hrun : (act dir).run u = (.ok a, ((act dir).run u).2) := Prod.ext ha rfl
  simpa using h dir u a _ hrun

theorem map {act : Act MarkError (Evaluation i)} {f : Evaluation i → Evaluation k}
    (h : Tells width "" xs (act.run w))
    (hf : ∀ a, (f a).account.provenance width = before ++ a.account.provenance width) :
    Tells width before xs ((act >>= fun a => pure (f a)).run w) := by
  rw [Act.run_bind]
  rcases hr : act.run w with ⟨e | a, u⟩
  · rintro b v ⟨⟩
  · rintro b v ⟨⟩
    have ha := h a u hr
    rw [String.empty_append] at ha
    rw [hf, ha]

end Tells

section Courses

variable (m : Machine) (commit : Commit) (width : Nat)

theorem Generator.preparation_silent (dir : Location) {k : Kind} (g : Generator k) (w : World) :
    provenanceOf width (g.preparation m dir w) = "" := by
  rw [← provenanceOf_filter, g.preparation_filter, provenanceOf_nil]

mutual

/-- What an evaluation says about itself is what its events say. -/
theorem Expr.course_tells : {k : Kind} → (e : Expr k) → (scope : Scope) → (w : World) →
    Tells width "" (e.course m commit scope w) ((e.apply m commit scope).run w)
  | _, .int _, _, w | _, .first, _, w => by
      rw [Expr.apply, Expr.course]
      exact .done fun a h => by cases h; rfl
  | _, .size, _, w => by
      rw [Expr.apply, Expr.course]
      exact .done fun a h => by cases h; simp [Commit.sizeAccount, Account.provenance]
  | _, .var k name, scope, w => by
      rw [Expr.apply, Expr.course, Act.run_bind, Act.run_lift]
      cases scope.get k name with
      | ok v => exact .done fun a h => by cases h; simp
      | error e => exact .done fun a h => nomatch h
  | _, .leaf name ending, _, w => by
      rw [Expr.apply, Expr.course, Act.run_leaf]
      exact .done fun a h => by subst h; simp
  | _, .div lhs rhs, scope, w => by
      rw [Expr.apply, Expr.course]
      refine (lhs.course_tells scope w).bind fun l u _ =>
        (rhs.course_tells scope u).bind fun r v _ => ?_
      rw [Act.run_lift]
      exact .done fun a h => by simp [Evaluation.provenance_of_quotient h]
  | _, .compare op lhs rhs, scope, w => by
      rw [Expr.apply, Expr.course]
      refine (lhs.course_tells scope w).bind fun l u _ =>
        (rhs.course_tells scope u).bind fun r v _ => .done fun a h => ?_
      cases h
      simp [Evaluation.compare]
  | _, .and lhs rhs, scope, w => by
      rw [Expr.apply, Expr.course, Act.conjoin]
      refine (lhs.course_tells scope w).bind fun l u _ => ?_
      cases hl : l.value with
      | false => exact .done fun a h => by cases h; simp
      | true => exact .map (rhs.course_tells scope u) fun r => by simp
  | _, .abs inner, scope, w => by
      rw [Expr.apply, Expr.course]
      refine (inner.course_tells scope w).bind fun e u _ => ?_
      rw [Act.run_lift]
      exact .done fun a h => by simp [Evaluation.provenance_of_absolute h]
  | _, .letIn name init body, scope, w => by
      rw [Expr.apply, Expr.course]
      exact (init.course_tells scope w).bind fun i u _ =>
        .map (body.course_tells (scope.bind name (.of _ i.value)) u) fun b => by
          simp [Evaluation.inBinding]
  | _, .cond condition yes no, scope, w => by
      rw [Expr.apply, Expr.course]
      refine (condition.course_tells scope w).bind fun c u _ => ?_
      cases hc : c.value with
      | true => exact .map (yes.course_tells scope u) fun b => by simp [Evaluation.afterCondition]
      | false => exact .map (no.course_tells scope u) fun b => by simp [Evaluation.afterCondition]
  | _, .container g, scope, w => by
      rw [Expr.apply, Expr.course]
      have hinside (dir : Location) (u : World) :
          Tells width ""
            (g.preparation m dir u ++ (g.prepare m dir).onward u fun _ v =>
              .started dir v.files :: g.course m commit scope dir v)
            ((g.prepare m dir >>= fun _ => g.apply m commit scope dir).run u) :=
        .prepared (g.preparation_silent m width dir u) fun v _ =>
          .skip rfl (g.course_tells scope dir v)
      exact .inScratch m.scratch w hinside

theorem Generator.course_tells : {k : Kind} → (g : Generator k) → (scope : Scope) →
    (dir : Location) → (w : World) →
    Tells width "" (g.course m commit scope dir w) ((g.apply m commit scope dir).run w)
  | _, .task _ expr, scope, _, w => by
      rw [Generator.apply, Generator.course]
      exact expr.course_tells scope w
  | _, .refuse _ _, _, _, _ => by
      rw [Generator.apply]
      rintro a v ⟨⟩
  | _, .runner r, _, dir, w => by
      rw [Generator.apply, Generator.course]
      rcases hr : (r.run m commit dir).run w with ⟨x, v⟩
      exact .done fun a h => by subst h; simp
  | _, .andAll lhs rhs, scope, dir, w => by
      rw [Generator.apply, Generator.course, Act.conjoin]
      refine (lhs.course_tells scope dir w).bind fun l u _ => ?_
      cases hl : l.value with
      | false => exact .done fun a h => by cases h; simp
      | true => exact .map (rhs.course_tells scope dir u) fun r => by simp

end

/-- Provenance is complete and in order. An evaluation that succeeds says what the leaves say that
were applied in its course, one after the other and once for each application, and nothing else.
They are some of the leaves of the expression, in the order of its text. -/
theorem Expr.provenance_of_applications {k : Kind} (e : Expr k) (scope : Scope) {w v : World}
    {a : Evaluation k} (h : (e.apply m commit scope).run w = (.ok a, v)) :
    let course := e.course m commit scope w
    let applications := course.filter Event.isApplication
    (Chained w course v ∧ Quiet course) ∧
      (∃ reached : List Leaf, reached.Sublist e.leaves ∧
        List.Forall₂ (Leaf.Applied m commit) reached applications) ∧
      ∀ width, a.account.provenance width = provenanceOf width applications := by
  intro course applications
  have hf := e.course_follows m commit scope w
  rw [h] at hf
  refine ⟨⟨hf.chained, hf.ended⟩, e.course_reaches m commit scope w, fun width => ?_⟩
  rw [provenanceOf_filter, e.course_tells m commit width scope w a v h, String.empty_append]

/-- Of seven leaves five are applied: the branch of a condition that fails is left out, and so is that
of one which holds. -/
theorem Expr.provenance_of_applications_nested :
    let say {k : Kind} (value : k.Carrier) (name : String) : Expr k :=
      .leaf name (.ok ⟨value, .leaf (fun _ => "") fun width => Text.heading name width⟩)
    let marked : Generator .bool :=
      .andAll (.task "Build" (say (k := .bool) true "build"))
        (.task "Test" (say (k := .bool) false "test"))
    let e : Expr .int :=
      .cond (.container marked) (say (k := .int) 1 "passed")
        (.letIn "x" (.abs .size)
          (.div (say (k := .int) 7 "seven")
            (.cond (.and .first (.compare .less (.var .int "x") (say (k := .int) 3 "bound")))
              (.var .int "x") (say (k := .int) 0 "never"))))
    let commit : Commit := ⟨"c", "", none, none, [⟨"A.java", [1, 2], []⟩]⟩
    let run := (e.apply .bare commit .empty).run (.fresh ⟨[]⟩)
    let applications :=
      (e.course .bare commit .empty (.fresh ⟨[]⟩)).filter Event.isApplication
    (∃ a v, run = (.ok a, v) ∧ a.value = (3 : Int64) ∧
      ∀ width, a.account.provenance width = provenanceOf width applications) ∧
    e.leaves.length = 7 ∧
    applications.map (Event.provenance 20) =
      [Text.heading "build" 20, Text.heading "test" 20, commit.sizeProvenance 20,
        Text.heading "seven" 20, Text.heading "bound" 20] := by
  intro say marked e commit run applications
  have hvalue : run.1.toOption.map (·.value) = some (3 : Int64) := by decide +kernel
  refine ⟨?_, rfl, by decide +kernel⟩
  rcases hr : run with ⟨x | a, v⟩
  · rw [hr] at hvalue
    cases hvalue
  · rw [hr] at hvalue
    exact ⟨a, v, rfl, Option.some.inj hvalue, (e.provenance_of_applications _ _ _ hr).2.2⟩

end Courses

end CommitMarking
