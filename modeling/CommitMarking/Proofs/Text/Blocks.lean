import CommitMarking.Text.Columns
import Mathlib.Data.List.Basic

namespace CommitMarking.Text

def EndsLine (s : String) : Prop := s = "" ∨ s.toList.getLast? = some '\n'

instance (s : String) : Decidable (EndsLine s) := inferInstanceAs (Decidable (_ ∨ _))

theorem endsLine_append (s : String) {t : String} (h : t.toList.getLast? = some '\n') :
    EndsLine (s ++ t) := by
  refine .inr ?_
  rw [String.toList_append, List.getLast?_append, h]
  rfl

theorem EndsLine.append {s t : String} (hs : EndsLine s) (ht : EndsLine t) : EndsLine (s ++ t) := by
  rcases ht with rfl | ht
  · rwa [String.append_empty]
  · exact endsLine_append s ht

theorem EndsLine.append_iff {s t : String} (hs : EndsLine s) : EndsLine (s ++ t) ↔ EndsLine t := by
  refine ⟨fun h => ?_, hs.append⟩
  by_cases ht : t = ""
  · exact .inl ht
  · have hne : t.toList ≠ [] := fun hnil => ht (String.toList_inj.1 hnil)
    rcases h with hnil | h
    · exact absurd (String.append_eq_empty_iff.1 hnil).2 ht
    · rw [String.toList_append, List.getLast?_append_of_ne_nil _ hne] at h
      exact .inr h

theorem endsLine_heading (title : String) (width : Nat) : EndsLine (heading title width) :=
  endsLine_append _ rfl

/-- A part of a report: lines that are to begin where a line begins, and what is printed after
them. -/
structure Block where
  opening : String
  below : String

def Block.text (b : Block) : String := b.opening ++ b.below

def printed (bs : List Block) : String := String.join (bs.map Block.text)

theorem printed_nil : printed [] = "" := rfl

theorem printed_append (bs cs : List Block) : printed (bs ++ cs) = printed bs ++ printed cs := by
  rw [printed, List.map_append, String.join_append, printed, printed]

theorem printed_cons (b : Block) (bs : List Block) : printed (b :: bs) = b.text ++ printed bs := by
  rw [printed, List.map_cons, String.join_cons, printed]

theorem printed_flatMap {α : Type} {f : α → List Block} {text : α → String}
    (h : ∀ a, printed (f a) = text a) (as : List α) :
    printed (as.flatMap f) = String.join (as.map text) := by
  induction as with
  | nil => rfl
  | cons a as ih =>
      rw [List.flatMap_cons, printed_append, ih, h, List.map_cons, String.join_cons]

/-- Every block begins at the beginning of a line. -/
def Separated (bs : List Block) : Prop :=
  ∀ before b after, bs = before ++ b :: after → EndsLine (printed before)

theorem endsLine_printed {bs : List Block} (h : ∀ b ∈ bs, EndsLine b.opening ∧ EndsLine b.below) :
    EndsLine (printed bs) := by
  induction bs with
  | nil => exact .inl rfl
  | cons b bs ih =>
      rw [List.forall_mem_cons] at h
      rw [printed_cons, Block.text]
      exact (h.1.1.append h.1.2).append (ih h.2)

/-- Only the last block may end within a line. -/
theorem separated_iff {bs : List Block} (h : ∀ b ∈ bs, EndsLine b.opening) :
    Separated bs ↔ ∀ b ∈ bs.dropLast, EndsLine b.below := by
  constructor
  · intro hseparated b hb
    obtain ⟨before, after, hsplit⟩ := List.append_of_mem hb
    have hne : bs ≠ [] := by
      rintro rfl
      cases hb
    have hbs := List.dropLast_append_getLast hne
    obtain ⟨c, rest, hrest⟩ : ∃ c rest, after ++ [bs.getLast hne] = c :: rest :=
      List.exists_cons_of_ne_nil (by simp)
    rw [hsplit, List.append_assoc, List.cons_append, hrest] at hbs
    have hopens : EndsLine (printed before ++ b.opening) :=
      (hseparated before b _ hbs.symm).append (h b (List.dropLast_subset bs hb))
    have hnext : EndsLine (printed (before ++ [b])) :=
      hseparated _ c rest (by rw [← hbs, List.append_assoc, List.singleton_append])
    rw [printed_append, printed_cons, Block.text, printed_nil, String.append_empty,
      ← String.append_assoc] at hnext
    exact hopens.append_iff.1 hnext
  · rintro hbelow before b after rfl
    refine endsLine_printed fun x hx => ⟨h x (List.mem_append_left _ hx), hbelow x ?_⟩
    rw [List.dropLast_append_of_ne_nil (List.cons_ne_nil b after)]
    exact List.mem_append_left _ hx

end CommitMarking.Text
