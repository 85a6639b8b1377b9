import CommitMarking.Text.Blank

namespace CommitMarking.Text

def stripped (cs : List Char) : List Char := dropBlankEnd (dropBlank cs)

theorem trim_ofList (cs : List Char) : trim (String.ofList cs) = String.ofList (stripped cs) := by
  rw [trim, String.toList_ofList, stripped]

theorem stripped_cons {c : Char} (h : isBlank c = true) (cs : List Char) :
    stripped (c :: cs) = stripped cs := by
  simp [stripped, dropBlank, h]

theorem stripped_concat {c : Char} (h : isBlank c = true) (cs : List Char) :
    stripped (cs ++ [c]) = stripped cs := by
  rw [stripped, stripped, dropBlank, dropBlank, List.dropWhile_append]
  split
  next he => simp [List.isEmpty_iff.1 he, h]
  next => simp [dropBlankEnd, dropBlank, h]

theorem stripped_of_forall {cs : List Char} (h : ∀ c ∈ cs, isBlank c = false) :
    stripped cs = cs := by
  have keep {xs : List Char} (hx : ∀ c ∈ xs, isBlank c = false) : dropBlank xs = xs := by
    cases xs with
    | nil => rfl
    | cons c xs => rw [dropBlank, List.dropWhile_cons_of_neg (by simp [hx c (List.mem_cons_self ..)])]
  rw [stripped, dropBlankEnd, keep h, keep fun c hc => h c (List.mem_reverse.1 hc),
    List.reverse_reverse]

theorem stripped_dropReturn (cs : List Char) : stripped (dropReturn cs) = stripped cs := by
  rw [dropReturn]
  split
  next h =>
      obtain ⟨front, rfl⟩ := List.getLast?_eq_some_iff.1 h
      rw [List.dropLast_concat, stripped_concat (by decide)]
  next => rfl

def lineTexts (cs : List Char) : List (List Char) := ((charLines cs).map stripped).filter (· ≠ [])

theorem lineTexts_eq_splitOn (cs : List Char) :
    lineTexts cs = ((cs.splitOn '\n').map stripped).filter (· ≠ []) := by
  obtain ⟨front, last, hp⟩ := List.eq_nil_or_concat (cs.splitOn '\n') |>.resolve_left
    (List.splitOn_ne_nil _ _)
  have hmap : (front.map dropReturn).map stripped = front.map stripped := by
    simp [stripped_dropReturn]
  rw [lineTexts, charLines, hp, List.concat_eq_append]
  simp only [List.dropLast_concat, List.getLast?_concat, List.map_append, List.filter_append, hmap]
  cases last with
  | nil => rfl
  | cons c cs => rfl

theorem lineTexts_append_newline (xs ys : List Char) :
    lineTexts (xs ++ '\n' :: ys) = lineTexts xs ++ lineTexts ys := by
  simp only [lineTexts_eq_splitOn, List.splitOn_append_cons_self, List.map_append, List.filter_append]

theorem lineTexts_of_not_mem {cs : List Char} (h : '\n' ∉ cs) :
    lineTexts cs = [stripped cs].filter (· ≠ []) := by
  rw [lineTexts_eq_splitOn, List.splitOn_eq_singleton h, List.map_singleton]

theorem lineTexts_cons {c : Char} (h : isBlank c = true) (cs : List Char) :
    lineTexts (c :: cs) = lineTexts cs := by
  obtain ⟨p, ps, hp⟩ := List.exists_cons_of_ne_nil (List.splitOn_ne_nil '\n' cs)
  rw [lineTexts_eq_splitOn, lineTexts_eq_splitOn, List.splitOn_cons_eq_if_modifyHead, hp]
  split
  next => rfl
  next => rw [List.modifyHead_cons, List.map_cons, List.map_cons, stripped_cons h]

theorem lineTexts_concat_of_not_mem {c : Char} (h : isBlank c = true) {cs : List Char}
    (hn : '\n' ∉ cs) : lineTexts (cs ++ [c]) = lineTexts cs := by
  by_cases hc : c = '\n'
  · subst hc
    rw [lineTexts_append_newline]
    exact List.append_nil _
  · have hm : '\n' ∉ cs ++ [c] := by simp [hn, Ne.symm hc]
    rw [lineTexts_of_not_mem hm, lineTexts_of_not_mem hn, stripped_concat h]

theorem lineTexts_concat {c : Char} (h : isBlank c = true) (cs : List Char) :
    lineTexts (cs ++ [c]) = lineTexts cs := by
  by_cases hn : '\n' ∈ cs
  · -- the blank comes after the last newline
    obtain ⟨after, before, hs, hm⟩ := List.eq_append_cons_of_mem (List.mem_reverse.2 hn)
    have hcs : cs = before.reverse ++ '\n' :: after.reverse := by
      rw [← List.reverse_reverse cs, hs]
      simp
    rw [hcs, List.append_assoc, List.cons_append, lineTexts_append_newline, lineTexts_append_newline,
      lineTexts_concat_of_not_mem h (by simpa using hm)]
  · exact lineTexts_concat_of_not_mem h hn

theorem lineTexts_stripped (cs : List Char) : lineTexts (stripped cs) = lineTexts cs := by
  have front (xs : List Char) : lineTexts (dropBlank xs) = lineTexts xs := by
    induction xs with
    | nil => rfl
    | cons c xs ih =>
        rw [dropBlank, List.dropWhile_cons]
        split
        next h => rw [lineTexts_cons h]; exact ih
        next => rfl
  have back (xs : List Char) : lineTexts (dropBlank xs).reverse = lineTexts xs.reverse := by
    induction xs with
    | nil => rfl
    | cons c xs ih =>
        rw [dropBlank, List.dropWhile_cons]
        split
        next h => rw [List.reverse_cons, lineTexts_concat h]; exact ih
        next => rfl
  rw [stripped, dropBlankEnd, back, List.reverse_reverse, front]

/-- Lines of whole words are read as they are written. -/
theorem lineTexts_flatMap_newline {lines : List (List Char)}
    (h : ∀ line ∈ lines, line ≠ [] ∧ ∀ c ∈ line, isBlank c = false) :
    lineTexts (lines.flatMap (· ++ ['\n'])) = lines := by
  induction lines with
  | nil => rfl
  | cons line lines ih =>
      obtain ⟨hne, hb⟩ := h line (List.mem_cons_self ..)
      have hn : '\n' ∉ line := fun hm => absurd (hb _ hm) (by decide)
      rw [List.flatMap_cons, List.append_assoc, List.singleton_append, lineTexts_append_newline,
        lineTexts_of_not_mem hn, stripped_of_forall hb, ih fun l hl => h l (List.mem_cons_of_mem _ hl)]
      simp [hne]

theorem map_ofList_splitOn_intercalate {fields : List String} {c : Char} (hne : fields ≠ [])
    (h : ∀ field ∈ fields, c ∉ field.toList) :
    (([c].intercalate (fields.map String.toList)).splitOn c).map String.ofList = fields := by
  rw [List.splitOn_intercalate c (by simpa using h) (by simpa using hne), List.map_map]
  simp

end CommitMarking.Text
