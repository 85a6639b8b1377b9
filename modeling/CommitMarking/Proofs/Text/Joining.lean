import CommitMarking.Proofs.Lists
import CommitMarking.Text.Columns

namespace CommitMarking.Text

def filledLines (s : String) : List String :=
  ((s.toList.splitOn '\n').filter (· ≠ [])).map String.ofList

/-- A text without an empty line: it neither begins nor ends with a newline, and has no two of them
next to each other. The empty text has no lines at all. -/
def Flat (s : String) : Prop := s = "" ∨ ∀ line ∈ s.toList.splitOn '\n', line ≠ []

instance (s : String) : Decidable (Flat s) := inferInstanceAs (Decidable (_ ∨ _))

variable {s t : String}

theorem flat_empty : Flat "" := .inl rfl

theorem flat_of_not_mem (h : '\n' ∉ s.toList) : Flat s := by
  by_cases hs : s = ""
  · exact .inl hs
  · refine .inr fun line hline => ?_
    rw [List.splitOn_eq_singleton h, List.mem_singleton] at hline
    exact fun hnil => hs (String.toList_inj.1 (hline ▸ hnil))

theorem filledLines_empty : filledLines "" = [] := rfl

theorem filledLines_of_not_mem (hs : s ≠ "") (h : '\n' ∉ s.toList) : filledLines s = [s] := by
  have hne : s.toList ≠ [] := fun hnil => hs (String.toList_inj.1 hnil)
  simp [filledLines, List.splitOn_eq_singleton h, hne]

theorem splitOn_append_newline (s t : String) :
    (s ++ "\n" ++ t).toList.splitOn '\n' = s.toList.splitOn '\n' ++ t.toList.splitOn '\n' := by
  have hs : (s ++ "\n" ++ t).toList = s.toList ++ '\n' :: t.toList := by simp
  rw [hs, List.splitOn_append_cons_self]

theorem joinLines_pair (hs : s ≠ "") (ht : t ≠ "") : joinLines [s, t] = s ++ "\n" ++ t := by
  simp [joinLines, hs, ht]

theorem joinLines_empty_left (t : String) : joinLines ["", t] = t := by
  by_cases ht : t = "" <;> simp [joinLines, ht]

theorem joinLines_empty_right (s : String) : joinLines [s, ""] = s := by
  by_cases hs : s = "" <;> simp [joinLines, hs]

theorem filledLines_joinLines (s t : String) :
    filledLines (joinLines [s, t]) = filledLines s ++ filledLines t := by
  by_cases hs : s = ""
  · rw [hs, joinLines_empty_left, filledLines_empty, List.nil_append]
  by_cases ht : t = ""
  · rw [ht, joinLines_empty_right, filledLines_empty, List.append_nil]
  rw [joinLines_pair hs ht]
  simp only [filledLines, splitOn_append_newline, List.filter_append, List.map_append]

theorem Flat.joinLines (hs : Flat s) (ht : Flat t) : Flat (joinLines [s, t]) := by
  by_cases hns : s = ""
  · rwa [hns, joinLines_empty_left]
  by_cases hnt : t = ""
  · rwa [hnt, joinLines_empty_right]
  refine .inr fun line hline => ?_
  rw [joinLines_pair hns hnt, splitOn_append_newline] at hline
  exact (List.mem_append.1 hline).elim (hs.resolve_left hns line) (ht.resolve_left hnt line)

theorem mem_filledLines {line : String} (h : line ∈ filledLines s) :
    line ≠ "" ∧ '\n' ∉ line.toList := by
  obtain ⟨piece, hpiece, rfl⟩ := List.mem_map.1 h
  obtain ⟨hmem, hne⟩ := List.mem_filter.1 hpiece
  rw [String.toList_ofList]
  refine ⟨fun hempty => of_decide_eq_true hne ?_, (mem_splitOn hmem).1⟩
  rw [← String.toList_ofList (l := piece), hempty, String.toList_empty]

/-- A flat text is its lines, one below the other. -/
theorem Flat.eq_intercalate (h : Flat s) : s = "\n".intercalate (filledLines s) := by
  rcases h with rfl | h
  · rfl
  have hall : (s.toList.splitOn '\n').filter (· ≠ []) = s.toList.splitOn '\n' :=
    List.filter_eq_self.2 fun line hline => decide_eq_true (h line hline)
  rw [← String.toList_inj, String.toList_intercalate, filledLines, hall, List.map_map]
  simp [Function.comp_def, List.intercalate_splitOn]

end CommitMarking.Text
