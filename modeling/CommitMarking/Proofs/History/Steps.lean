import CommitMarking.History
import CommitMarking.Proofs.FileSystem.Below

namespace CommitMarking

namespace Machine

def attempt (m : Machine) (files : FileTree) (place : Place) (program : String)
    (args : List String) : Except SystemError (Call × Process) :=
  (m.admission files place program args).map fun call => (call, (m.rule call).process call files)

theorem eq_of_attempt {m : Machine} {t : FileTree} {place : Place} {program : String}
    {args : List String} {call : Call} {p : Process}
    (h : m.attempt t place program args = .ok (call, p)) :
    ∃ dir, place = .ok dir ∧ call = ⟨program, args, dir⟩ := by
  unfold attempt at h
  cases hadmission : m.admission t place program args with
  | error e => rw [hadmission] at h; cases h
  | ok admitted =>
      rw [hadmission] at h
      cases h
      exact admission_ok hadmission

theorem run_start_listed {m : Machine} {program : String} (h : m.resident? program = none)
    (place : Place) (limit : Option Nat) (group : ProcessGroup) (args : List String) (w : World) :
    (m.start place limit group program args).run w =
      match m.attempt w.files place program args with
      | .error e => (.error e, w)
      | .ok (call, p) => (.ok (p.execution limit group), { w with calls := w.calls ++ [call] }) := by
  rw [run_start, attempt]
  cases hadmission : m.admission w.files place program args with
  | error e => rfl
  | ok call =>
      obtain ⟨dir, -, rfl⟩ := admission_ok hadmission
      simp only [launch, h]
      rfl

end Machine

namespace Repository

open Text

section Answers

variable (r : Repository) (t : FileTree)

def answer (args : List String) : Except GitError Bytes :=
  match r.machine.attempt t r.place "git" args with
  | .error e => .error (.notStarted e)
  | .ok (_, p) =>
      let e := p.execution none .inherit
      if e.succeeded then .ok e.stdout else .error (.failed args (trim e.stderrText))

def started (args : List String) : List Call :=
  match r.machine.attempt t r.place "git" args with
  | .error _ => []
  | .ok (call, _) => [call]

def output (args : List String) : Bytes :=
  match r.answer t args with
  | .ok out => out
  | .error _ => []

theorem run_git {r : Repository} (h : r.machine.resident? "git" = none) (args : List String)
    (w : World) :
    (r.git args).run w =
      (r.answer w.files args, { w with calls := w.calls ++ r.started w.files args }) := by
  unfold git answer started
  rw [Act.run_bind, Act.run_mapError, Machine.run_start_listed h]
  cases r.machine.attempt w.files r.place "git" args with
  | error e => simp
  | ok ended =>
      simp only [mapError_ok]
      split <;> rfl

theorem exists_place_of_answer {r : Repository} {t : FileTree} {args : List String} {out : Bytes}
    (h : r.answer t args = .ok out) : ∃ dir, r.place = .ok dir := by
  unfold answer at h
  cases ha : r.machine.attempt t r.place "git" args with
  | error e => simp [ha] at h
  | ok ended =>
      obtain ⟨dir, hdir, -⟩ := Machine.eq_of_attempt ha
      exact ⟨dir, hdir⟩

theorem started_of_answer {r : Repository} {t : FileTree} {dir : Location} {args : List String}
    {out : Bytes} (hp : r.place = .ok dir) (h : r.answer t args = .ok out) :
    r.started t args = [⟨"git", args, dir⟩] := by
  unfold answer at h
  rw [started]
  rcases ha : r.machine.attempt t r.place "git" args with e | ⟨call, e⟩
  · simp [ha] at h
  · obtain ⟨l, hl, rfl⟩ := Machine.eq_of_attempt ha
    cases hp.symm.trans hl
    rfl

end Answers

/-- Something that can fail while a history is loaded: to ask git, or to read what a diff printed. -/
inductive Step
  | ask (args : List String)
  | read (raw : Bytes)
  deriving DecidableEq, Repr

section Steps

variable (r : Repository) (t : FileTree)

def Step.error? : Step → Option GitError
  | ask args =>
      match r.answer t args with
      | .ok _ => none
      | .error e => some e
  | read raw =>
      match RawDiff.parse? raw with
      | .ok _ => none
      | .error e => some e

def Step.started : Step → List Call
  | ask args => r.started t args
  | read _ => []

def taken : List Step → List Step
  | [] => []
  | s :: ss => if (s.error? r t).isSome then [s] else s :: taken ss

/-- The action takes the steps in their order, ends with the error of the first one that fails, and
answers with `a` if none does. -/
def Takes {α : Type} (steps : List Step) (act : Act GitError α) (a : α) : Prop :=
  ∀ w : World, w.files = t → act.run w =
    (match steps.findSome? (Step.error? r t) with
      | none => .ok a
      | some e => .error e,
     { w with calls := w.calls ++ (r.taken t steps).flatMap (Step.started r t) })

end Steps

variable {r : Repository} {t : FileTree} {α β : Type} {xs ys : List Step}

theorem taken_of_none (h : xs.findSome? (Step.error? r t) = none) : r.taken t xs = xs := by
  induction xs with
  | nil => rfl
  | cons s ss ih =>
      rw [List.findSome?_cons] at h
      cases hs : s.error? r t with
      | none =>
          rw [hs] at h
          simp [taken, hs, ih h]
      | some e => simp [hs] at h

theorem taken_append (xs ys : List Step) :
    r.taken t (xs ++ ys) =
      if xs.findSome? (Step.error? r t) = none then xs ++ r.taken t ys else r.taken t xs := by
  induction xs with
  | nil => rfl
  | cons s ss ih =>
      cases hs : s.error? r t with
      | none =>
          simp only [List.cons_append, taken, List.findSome?_cons, hs, Option.isSome_none,
            Bool.false_eq_true, if_false, ih]
          split <;> rfl
      | some e => simp [taken, hs]

theorem taken_of_error {s : Step} {e : GitError} (hx : xs.findSome? (Step.error? r t) = none)
    (hs : s.error? r t = some e) (ys : List Step) :
    (xs ++ s :: ys).findSome? (Step.error? r t) = some e ∧ r.taken t (xs ++ s :: ys) = xs ++ [s] := by
  rw [List.findSome?_append, taken_append, if_pos hx, hx, List.findSome?_cons, taken, hs]
  exact ⟨rfl, rfl⟩

namespace Takes

theorem pure (a : α) : Takes r t [] (Pure.pure a) a := by
  intro w _
  simp [taken]

theorem bind {act : Act GitError α} {next : α → Act GitError β} {a : α} {b : β}
    (h : Takes r t xs act a) (hn : Takes r t ys (next a) b) :
    Takes r t (xs ++ ys) (act >>= next) b := by
  intro w hw
  rw [Act.run_bind, h w hw, List.findSome?_append, taken_append]
  cases hx : xs.findSome? (Step.error? r t) with
  | none =>
      have hv := hn { w with calls := w.calls ++ xs.flatMap (Step.started r t) } hw
      simpa only [Option.none_or, if_true, taken_of_none hx, List.flatMap_append,
        ← List.append_assoc] using hv
  | some e => rfl

theorem bind_cons {s : Step} {act : Act GitError α} {next : α → Act GitError β} {a : α} {b : β}
    (h : Takes r t [s] act a) (hn : Takes r t ys (next a) b) : Takes r t (s :: ys) (act >>= next) b :=
  h.bind hn

theorem map {act : Act GitError α} {a : α} (f : α → β) (h : Takes r t xs act a) :
    Takes r t xs (act >>= fun x => Pure.pure (f x)) (f a) := by
  rw [← List.append_nil xs]
  exact h.bind (pure (f a))

theorem mapM {f : α → Act GitError β} {steps : α → List Step} {g : α → β}
    (h : ∀ a, Takes r t (steps a) (f a) (g a)) (as : List α) :
    Takes r t (as.flatMap steps) (as.mapM f) (as.map g) := by
  induction as with
  | nil => exact pure []
  | cons a as ih =>
      rw [List.mapM_cons, List.flatMap_cons]
      exact (h a).bind (ih.map _)

end Takes

theorem git_takes (h : r.machine.resident? "git" = none) (args : List String) :
    Takes r t [.ask args] (r.git args) (r.output t args) := by
  rintro w rfl
  rw [run_git h]
  cases ha : r.answer w.files args <;> simp [Step.error?, Step.started, taken, output, ha]

end Repository

end CommitMarking
