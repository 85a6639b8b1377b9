import Mathlib.Data.List.Basic
import Mathlib.Data.List.Forall2

namespace CommitMarking

variable {α : Type} {l : List α} {p : α → Bool}

theorem find?_reverse_eq_some_iff {a : α} :
    l.reverse.find? p = some a ↔
      p a = true ∧ ∃ before after, l = before ++ a :: after ∧ ∀ b ∈ after, p b = false := by
  rw [List.find?_eq_some_iff_append]
  simp only [Bool.not_eq_true']
  refine and_congr_right fun _ => ?_
  constructor
  · rintro ⟨after, before, hl, hnone⟩
    refine ⟨before.reverse, after.reverse, ?_, fun b hb => hnone b (List.mem_reverse.1 hb)⟩
    rw [← List.reverse_reverse l, hl]
    simp
  · rintro ⟨before, after, rfl, hnone⟩
    exact ⟨after.reverse, before.reverse, by simp, fun b hb => hnone b (List.mem_reverse.1 hb)⟩

/-- Sorting keeps the order of what it takes to be the same. -/
theorem filter_mergeSort {le : α → α → Bool}
    (trans : ∀ a b c, le a b = true → le b c = true → le a c = true)
    (total : ∀ a b, (le a b || le b a) = true) (tied : ∀ a b, p a = true → p b = true → le a b = true)
    (l : List α) : (l.mergeSort le).filter p = l.filter p := by
  have hle : (l.filter p).Pairwise fun a b => le a b = true :=
    List.pairwise_of_forall_mem_list fun a ha b hb =>
      tied a b (List.mem_filter.1 ha).2 (List.mem_filter.1 hb).2
  have hsub : (l.filter p).Sublist ((l.mergeSort le).filter p) := by
    simpa using (List.sublist_mergeSort trans total hle List.filter_sublist).filter p
  exact (hsub.eq_of_length ((List.mergeSort_perm l le).filter p).length_eq.symm).symm

theorem filterMap_eq_of_map_eq {α β γ : Type} {f : α → Option γ} {g : β → Option γ} {as : List α}
    {bs : List β} (h : as.map f = bs.map g) : as.filterMap f = bs.filterMap g := by
  have hf {δ : Type} (f : δ → Option γ) (l : List δ) : l.filterMap f = (l.map f).filterMap id := by
    rw [List.filterMap_map, Function.id_comp]
  rw [hf, h, ← hf]

theorem mem_splitOn {c : Char} {cs piece : List Char} (h : piece ∈ cs.splitOn c) :
    c ∉ piece ∧ piece ⊆ cs := by
  induction cs generalizing piece with
  | nil => simp_all
  | cons d cs ih =>
      obtain ⟨first, rest, hs⟩ := List.exists_cons_of_ne_nil (List.splitOn_ne_nil c cs)
      rw [List.splitOn_cons_eq_if_modifyHead] at h
      split at h
      next =>
          rcases List.mem_cons.1 h with rfl | h
          · simp
          · exact ⟨(ih h).1, List.subset_cons_of_subset d (ih h).2⟩
      next hd =>
          rw [hs, List.modifyHead_cons] at h
          have hfirst := ih (hs ▸ List.mem_cons_self)
          rcases List.mem_cons.1 h with rfl | h
          · have hne : c ≠ d := fun he => hd (by simp [he])
            exact ⟨by simp [hne, hfirst.1], List.cons_subset_cons d hfirst.2⟩
          · have hpiece := ih (hs ▸ List.mem_cons_of_mem first h)
            exact ⟨hpiece.1, List.subset_cons_of_subset d hpiece.2⟩

theorem getLast?_of_forall₂ {α β : Type} {p : α → β → Prop} {as : List α} {bs : List β}
    (h : List.Forall₂ p as bs) : Option.Rel p as.getLast? bs.getLast? := by
  rw [← List.head?_reverse, ← List.head?_reverse]
  have hr := List.forall₂_reverse_iff.2 h
  generalize as.reverse = as' at hr ⊢
  generalize bs.reverse = bs' at hr ⊢
  cases hr with
  | nil => exact .none
  | cons hab _ => exact .some hab

end CommitMarking
