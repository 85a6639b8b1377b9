import CommitMarking.Program
import Mathlib.Logic.Function.Basic
import Mathlib.Logic.Relation
import Mathlib.Data.List.Basic

namespace CommitMarking

namespace Write

variable (s : Stream)

@[simp] theorem onto_nil : onto s [] = [] := rfl

@[simp] theorem onto_cons (w : Write) (ws : List Write) :
    onto s (w :: ws) = (if w.stream = s then w.bytes else []) ++ onto s ws := rfl

@[simp] theorem onto_append (ws ws' : List Write) : onto s (ws ++ ws') = onto s ws ++ onto s ws' :=
  List.flatMap_append

end Write

open Write (onto)

/-- A process that writes into two pipes, and the readers that empty them: what it is still to
write, what it has written, what is in each pipe and what each reader has got. -/
structure Capture where
  pending : List Write
  printed : List Write
  pipe : Stream → Bytes
  buffer : Stream → Bytes

namespace Capture

def capacity : Nat := 65536

def chunk : Nat := 8192

def start (ws : List Write) : Capture := ⟨ws, [], fun _ => [], fun _ => []⟩

/-- The process writes as much as fits and waits while its pipe is full; a reader takes what it
finds, and waits while it finds nothing. -/
inductive Step : Capture → Capture → Prop
  | write (s) (bytes later : Bytes) (rest) (printed) (pipe) (buffer) (hne : bytes ≠ [])
      (hfits : (pipe s).length + bytes.length ≤ capacity) :
      Step ⟨⟨s, bytes ++ later⟩ :: rest, printed, pipe, buffer⟩
        ⟨⟨s, later⟩ :: rest, printed ++ [⟨s, bytes⟩], Function.update pipe s (pipe s ++ bytes),
          buffer⟩
  | written (s) (rest) (printed) (pipe) (buffer) :
      Step ⟨⟨s, []⟩ :: rest, printed, pipe, buffer⟩ ⟨rest, printed, pipe, buffer⟩
  | read (s) (bytes left : Bytes) (pending) (printed) (pipe) (buffer) (hne : bytes ≠ [])
      (hchunk : bytes.length ≤ chunk) (hpipe : pipe s = bytes ++ left) :
      Step ⟨pending, printed, pipe, buffer⟩
        ⟨pending, printed, Function.update pipe s left,
          Function.update buffer s (buffer s ++ bytes)⟩

abbrev Steps : Capture → Capture → Prop := Relation.ReflTransGen Step

def Finished (c : Capture) : Prop := c.pending = [] ∧ ∀ s, c.pipe s = []

def stop (c : Capture) : Capture := { c with pending := [] }

def Kept (c : Capture) : Prop := ∀ s, c.buffer s ++ c.pipe s = onto s c.printed

variable {c d : Capture} {ws : List Write}

theorem kept_start (ws : List Write) : (start ws).Kept := fun _ => rfl

theorem Kept.stop (h : c.Kept) : c.stop.Kept := h

theorem Step.kept (h : Step c d) (hc : c.Kept) : d.Kept := by
  intro s'
  have hs := hc s'
  cases h with
  | write s bytes later rest printed pipe buffer =>
      dsimp only at hs ⊢
      by_cases hss : s' = s
      · subst hss
        rw [Function.update_self, ← List.append_assoc, hs]
        simp
      · rw [Function.update_of_ne hss, hs]
        simp [Ne.symm hss]
  | written => exact hs
  | read s bytes left pending printed pipe buffer hne hchunk hpipe =>
      dsimp only at hs ⊢
      by_cases hss : s' = s
      · subst hss
        rw [Function.update_self, Function.update_self, List.append_assoc, ← hpipe, hs]
      · rw [Function.update_of_ne hss, Function.update_of_ne hss, hs]

theorem Steps.kept (h : Steps c d) (hc : c.Kept) : d.Kept := by
  induction h with
  | refl => exact hc
  | tail _ hstep ih => exact hstep.kept ih

theorem Step.onto_eq (h : Step c d) (s : Stream) :
    onto s d.printed ++ onto s d.pending = onto s c.printed ++ onto s c.pending := by
  cases h with
  | write s' =>
      by_cases hs : s' = s <;> simp [hs]
  | written => simp
  | read => rfl

theorem Steps.onto_eq (h : Steps c d) (s : Stream) :
    onto s d.printed ++ onto s d.pending = onto s c.printed ++ onto s c.pending := by
  induction h with
  | refl => rfl
  | tail _ hstep ih => exact (hstep.onto_eq s).trans ih

theorem Finished.buffer_eq (h : c.Finished) (hc : c.Kept) (s : Stream) :
    c.buffer s = onto s c.printed := by
  rw [← hc s, h.2 s, List.append_nil]

theorem Steps.printed_of_stop (h : Steps c.stop d) : d.printed = c.printed ∧ d.pending = [] := by
  induction h with
  | refl => exact ⟨rfl, rfl⟩
  | tail _ hstep ih =>
      obtain ⟨hprinted, hpending⟩ := ih
      cases hstep with
      | write | written => cases hpending
      | read => exact ⟨hprinted, hpending⟩

/-- Of a process that is stopped, the readers get all that it had written up to then, each what was
written to its stream, however the process and the readers took turns. -/
theorem buffer_of_stop (h : Steps (start ws) c) (hd : Steps c.stop d) (hf : d.Finished)
    (s : Stream) : d.buffer s = onto s c.printed ∧ onto s c.printed <+: onto s ws := by
  constructor
  · rw [hf.buffer_eq (hd.kept (h.kept (kept_start ws)).stop), hd.printed_of_stop.1]
  · exact ⟨onto s c.pending, h.onto_eq s⟩

/-- A process had written `ws` when it ended or its time was up, and the readers are done too. -/
def Drained (ws : List Write) (d : Capture) : Prop :=
  ∃ c, Steps (start ws) c ∧ c.pending = [] ∧ Steps c.stop d ∧ d.Finished

theorem Drained.buffer_eq (h : Drained ws d) (s : Stream) : d.buffer s = onto s ws := by
  obtain ⟨c, hc, hpending, hd, hf⟩ := h
  have hall := hc.onto_eq s
  rw [hpending, Write.onto_nil, List.append_nil] at hall
  exact (buffer_of_stop hc hd hf s).1.trans hall

section Progress

/-- Bytes count twice before they are written and once while they are on the way. -/
def weight (c : Capture) : Nat :=
  c.pending.length + 2 * (c.pending.flatMap Write.bytes).length + (c.pipe .out).length +
    (c.pipe .err).length

theorem Step.weight_lt (h : Step c d) : d.weight < c.weight := by
  cases h with
  | write s bytes later rest printed pipe buffer hne =>
      have hpos := List.length_pos_iff.2 hne
      cases s <;> simp [weight] <;> omega
  | written => simp [weight]
  | read s bytes left pending printed pipe buffer hne hchunk hpipe =>
      have hpos := List.length_pos_iff.2 hne
      have hlength := congrArg List.length hpipe
      rw [List.length_append] at hlength
      cases s <;> simp [weight] <;> omega

theorem exists_read (s : Stream) (h : c.pipe s ≠ []) : ∃ d, Step c d := by
  obtain ⟨pending, printed, pipe, buffer⟩ := c
  obtain ⟨b, left, hpipe⟩ := List.exists_cons_of_ne_nil h
  exact ⟨_, .read s [b] left _ _ pipe buffer (List.cons_ne_nil _ _) (by simp [chunk]) hpipe⟩

/-- The process and the readers never wait for each other. -/
theorem exists_step (h : ¬c.Finished) : ∃ d, Step c d := by
  by_cases hpipes : ∀ s, c.pipe s = []
  · obtain ⟨pending, printed, pipe, buffer⟩ := c
    rcases pending with _ | ⟨⟨s, _ | ⟨b, later⟩⟩, rest⟩
    · exact absurd ⟨rfl, hpipes⟩ h
    · exact ⟨_, .written s rest printed pipe buffer⟩
    · have hfits : (pipe s).length + [b].length ≤ capacity := by
        rw [show pipe s = [] from hpipes s]
        simp [capacity]
      exact ⟨_, .write s [b] later rest printed pipe buffer (List.cons_ne_nil _ _) hfits⟩
  · obtain ⟨s, hs⟩ := not_forall.1 hpipes
    exact exists_read s hs

theorem exists_finished (c : Capture) : ∃ d, Steps c d ∧ d.Finished := by
  by_cases h : c.Finished
  · exact ⟨c, .refl, h⟩
  · obtain ⟨d, hstep⟩ := exists_step h
    obtain ⟨e, hsteps, he⟩ := exists_finished d
    exact ⟨e, .head hstep hsteps, he⟩
termination_by c.weight
decreasing_by exact hstep.weight_lt

theorem exists_drained (ws : List Write) : ∃ d, Drained ws d := by
  obtain ⟨d, hd, hf⟩ := exists_finished (start ws)
  have hstop : d.stop = d := by
    rw [stop, ← hf.1]
  exact ⟨d, d, hd, hf.1, hstop ▸ .refl, hf⟩

end Progress

end Capture

end CommitMarking
