import CommitMarking.Proofs.Arithmetic
import CommitMarking.Proofs.Lists
import CommitMarking.Proofs.Text.Rows

namespace CommitMarking

open Text

def readSize? (row : String) : Option Int :=
  ((row.toList.splitOn ' ').dropLast.getLast?.bind fun word =>
    Decimal.int64? (String.ofList word)).map Int64.toInt

theorem readSize?_append {number : String} (h : ' ' ∉ number.toList) (left : String) :
    readSize? (left ++ " " ++ number ++ " bytes") = (Decimal.int64? number).map Int64.toInt := by
  have hs : (left ++ " " ++ number ++ " bytes").toList =
      left.toList ++ ' ' :: (number.toList ++ ' ' :: "bytes".toList) := by simp
  have hb : "bytes".toList.splitOn ' ' = ["bytes".toList] := List.splitOn_eq_singleton (by decide)
  rw [readSize?, hs, List.splitOn_append_cons_self, List.splitOn_append_cons_self,
    List.splitOn_eq_singleton h, hb, ← List.append_assoc, List.dropLast_concat, List.getLast?_concat,
    Option.bind_some, String.ofList_toList]

namespace Entry

def sizeLine (width : Nat) (e : Entry) : String := line e.path ' ' (sizeText e.size) width

/-- A row begins with the path of a file and ends with the bytes by which it grows or shrinks. -/
def Tells (e : Entry) (row : String) : Prop :=
  ∃ gap, row = e.path ++ " " ++ gap ++ (if 0 < e.growth then " +" else " -") ++
    Decimal.ofNat e.growth.natAbs ++ " bytes"

theorem toInt_size {e : Entry} (h : e.before.length + e.after.length < 2 ^ 63) :
    e.size.toInt = e.growth := by
  rw [size_eq_ofInt_growth, Int64.toInt_ofInt_of_le] <;> rw [growth] <;> omega

theorem tells_sizeLine {e : Entry} (h : e.size.toInt = e.growth) (hne : e.growth ≠ 0) (width : Nat) :
    e.Tells (e.sizeLine width) := by
  refine ⟨fill ' ' (width - (e.path.length + (sizeText e.size).length + 2)), ?_⟩
  rw [sizeLine, line, ← String.toList_inj]
  rw [show sizeText e.size = _ ++ " bytes" from rfl, h, Decimal.signed_eq hne]
  split <;> simp

theorem readSize?_sizeLine {e : Entry} (h : e.size.toInt = e.growth) (width : Nat) :
    readSize? (e.sizeLine width) = some e.growth := by
  have hs : ' ' ∉ (Decimal.signed e.size.toInt).toList :=
    Decimal.not_mem_signed (by decide) (by decide) (by decide) _
  rw [sizeLine, line, sizeText, ← String.append_assoc, readSize?_append hs, Decimal.int64?_signed,
    Option.map_some, h]

end Entry

namespace Commit

def totalLine (c : Commit) (width : Nat) : String :=
  line "" ' ' ("= " ++ Decimal.ofInt c.changedSize.toInt ++ " bytes") width

theorem sizeProvenance_eq_unlines (c : Commit) (width : Nat) :
    c.sizeProvenance width =
      unlines ([rule '-' width, "Commit size:", ""] ++ c.changes.map (Entry.sizeLine width) ++
        [c.totalLine width]) := by
  have hrows : String.join (c.changes.map fun e => sizeRow width e.path (Entry.sizeText e.size)) =
      unlines (c.changes.map (Entry.sizeLine width)) :=
    (unlines_map (Entry.sizeLine width) c.changes).symm
  rw [sizeProvenance, hrows, unlines_append, unlines_append, ← String.toList_inj]
  simp [unlines, heading, sizeRow, totalLine]

theorem newline_not_mem_totalLine (c : Commit) (width : Nat) : '\n' ∉ (c.totalLine width).toList := by
  have htotal : '\n' ∉ (Decimal.ofInt c.changedSize.toInt).toList :=
    Decimal.not_mem_ofInt (by decide) (by decide) _
  exact not_mem_line (by decide) (by decide) (by decide) (by simp [htotal]) width

theorem lined_sizeProvenance {c : Commit} (h : ∀ e ∈ c.entries, '\n' ∉ e.path.toList) (width : Nat) :
    Lined (c.sizeProvenance width)
      ([rule '-' width, "Commit size:", ""] ++ c.changes.map (Entry.sizeLine width) ++
        [c.totalLine width]) := by
  rw [sizeProvenance_eq_unlines]
  refine lined_unlines fun l hl => ?_
  simp only [List.mem_append, List.mem_cons, List.mem_map, List.not_mem_nil, or_false] at hl
  rcases hl with ((rfl | rfl | rfl) | ⟨e, he, rfl⟩) | rfl
  · exact not_mem_fill (by decide) width
  · decide
  · decide
  · have hsize : '\n' ∉ (Decimal.signed e.size.toInt).toList :=
      Decimal.not_mem_signed (by decide) (by decide) (by decide) _
    exact not_mem_line (h e (List.mem_filter.1 he).1) (by decide) (by decide)
      (by simp [Entry.sizeText, hsize]) width
  · exact c.newline_not_mem_totalLine width

theorem readSize?_totalLine (c : Commit) (width : Nat) :
    readSize? (c.totalLine width) = some c.changedSize.toInt := by
  have hs : ' ' ∉ (Decimal.ofInt c.changedSize.toInt).toList :=
    Decimal.not_mem_ofInt (by decide) (by decide) _
  have hline : c.totalLine width = "" ++ " " ++ fill ' ' (width - ("".length +
      ("= " ++ Decimal.ofInt c.changedSize.toInt ++ " bytes").length + 2)) ++ " =" ++ " " ++
        Decimal.ofInt c.changedSize.toInt ++ " bytes" := by
    rw [totalLine, line, ← String.toList_inj]
    simp
  rw [hline, readSize?_append hs, Decimal.int64?_ofInt, Option.map_some]

theorem toInt_size_of_mem {c : Commit} (h : c.contentLength < 2 ^ 63) {e : Entry}
    (he : e ∈ c.entries) : e.size.toInt = e.growth := by
  have hle := List.le_sum_of_mem (List.mem_map_of_mem (f := fun e => e.before.length + e.after.length) he)
  exact Entry.toInt_size (Nat.lt_of_le_of_lt hle h)

theorem changes_eq {c : Commit} (h : c.contentLength < 2 ^ 63) :
    c.changes = c.entries.filter (·.growth ≠ 0) := by
  refine List.filter_congr fun e he => ?_
  rw [Entry.changed, Bool.eq_iff_iff, decide_eq_true_iff, decide_eq_true_iff,
    ← toInt_size_of_mem h he, not_iff_not, ← Int64.toInt_inj]
  rfl

theorem sum_growth_changes (es : List Entry) :
    ((es.filter (·.growth ≠ 0)).map Entry.growth).sum = (es.map Entry.growth).sum := by
  induction es with
  | nil => rfl
  | cons e es ih =>
      by_cases he : e.growth = 0
      · rw [List.filter_cons_of_neg (by simp [he]), ih, List.map_cons, List.sum_cons, he, zero_add]
      · rw [List.filter_cons_of_pos (by simp [he]), List.map_cons, List.sum_cons, ih, List.map_cons,
          List.sum_cons]

theorem size_eq_of_perm {c c' : Commit} (h : c'.entries.Perm c.entries) : c'.size = c.size := by
  rw [size_eq_ofInt_growth, size_eq_ofInt_growth, growth, growth, (h.map Entry.growth).sum_eq]

end Commit

/-- The size of a commit is that of all its entries, and its report shows how it comes about. The
entries that grow or shrink have a row each, in order, and what is read from the rows adds up to what
is read from the last line. The order of the entries does not matter for the size and that line. -/
theorem Expr.size_explained (m : Machine) (scope : Scope) (w : World) {c : Commit}
    (h : c.contentLength < 2 ^ 63) :
    let run (c : Commit) := (Expr.size.apply m c scope).run w
    ∃ (a : Evaluation .int) (total : Nat → String), run c = (.ok a, w) ∧ a.value = c.size ∧
      a.value.toInt = c.growth ∧
      (∀ width, '\n' ∉ (total width).toList ∧ readSize? (total width) = some a.value.toInt) ∧
      ((∀ e ∈ c.entries, '\n' ∉ e.path.toList) → ∀ width, ∃ rows,
        Lined (a.account.provenance width)
          ([rule '-' width, "Commit size:", ""] ++ rows ++ [total width]) ∧
        List.Forall₂ Entry.Tells (c.entries.filter (·.growth ≠ 0)) rows ∧
        rows.map readSize? = (c.entries.filter (·.growth ≠ 0)).map (some ·.growth) ∧
        (rows.filterMap readSize?).sum = a.value.toInt) ∧
      ∀ c' : Commit, c'.entries.Perm c.entries → ∃ a', run c' = (.ok a', w) ∧ a'.value = a.value ∧
        ∀ width, ∃ above, a'.account.provenance width = unlines (above ++ [total width]) := by
  intro run
  have hrun (c : Commit) : run c = (.ok ⟨c.changedSize, c.sizeAccount⟩, w) := by
    simp only [run, Expr.apply]
    rfl
  have hvalue : c.changedSize.toInt = c.growth := Commit.toInt_changedSize h
  refine ⟨_, c.totalLine, hrun c, c.changedSize_eq_size, hvalue, fun width => ?_, ?_, ?_⟩
  · exact ⟨c.newline_not_mem_totalLine width, c.readSize?_totalLine width⟩
  · intro hpaths width
    have hsize : ∀ e ∈ c.entries.filter (·.growth ≠ 0), e.size.toInt = e.growth := fun e he =>
      Commit.toInt_size_of_mem h (List.mem_filter.1 he).1
    have hread : ((c.entries.filter (·.growth ≠ 0)).map (Entry.sizeLine width)).map readSize? =
        (c.entries.filter (·.growth ≠ 0)).map (some ·.growth) := by
      rw [List.map_map]
      exact List.map_congr_left fun e he => Entry.readSize?_sizeLine (hsize e he) width
    refine ⟨_, Commit.changes_eq h ▸ Commit.lined_sizeProvenance hpaths width, ?_, hread, ?_⟩
    · rw [List.forall₂_map_right_iff, List.forall₂_same]
      exact fun e he => Entry.tells_sizeLine (hsize e he) (by simpa using (List.mem_filter.1 he).2) width
    · rw [filterMap_eq_of_map_eq hread, List.filterMap_eq_map', Commit.sum_growth_changes]
      exact hvalue.symm
  · intro c' hperm
    have hsame : c'.changedSize = c.changedSize := by
      rw [c'.changedSize_eq_size, c.changedSize_eq_size, Commit.size_eq_of_perm hperm]
    refine ⟨_, hrun c', hsame, fun width => ?_⟩
    have htotal : c'.totalLine width = c.totalLine width := by
      rw [Commit.totalLine, hsame, Commit.totalLine]
    rw [← htotal]
    exact ⟨_, c'.sizeProvenance_eq_unlines width⟩

/-- A file that shrinks between one that does not change in size and one of which the path looks like
the end of a row. -/
theorem Expr.size_explained_mixed :
    let same : Entry := ⟨"C.java", [1], [2]⟩
    let shrinks : Entry := ⟨"D.java", [1, 2, 3, 4, 5], []⟩
    let grows : Entry := ⟨"A  +7 bytes", [], [1, 2, 3]⟩
    let commit (entries : List Entry) : Commit := ⟨"c", "", none, none, entries⟩
    let w : World := .fresh ⟨[]⟩
    let run (c : Commit) := (Expr.size.apply .bare c .empty).run w
    (commit [same, shrinks, grows]).contentLength < 2 ^ 63 ∧
      ∃ (a : Evaluation .int) (total : String), run (commit [same, shrinks, grows]) = (.ok a, w) ∧
        a.value.toInt = -2 ∧ readSize? total = some (-2) ∧
        (∃ rows, Lined (a.account.provenance 20)
            ([rule '-' 20, "Commit size:", ""] ++ rows ++ [total]) ∧
          rows.map readSize? = [some (-5), some 3]) ∧
        ∃ a', run (commit [grows, same, shrinks]) = (.ok a', w) ∧ a'.value = a.value ∧
          ∃ above, a'.account.provenance 20 = unlines (above ++ [total]) := by
  intro same shrinks grows commit w run
  have hlength : (commit [same, shrinks, grows]).contentLength < 2 ^ 63 := by decide
  obtain ⟨a, total, ha, -, hvalue, htotal, hrows, hperm⟩ :=
    Expr.size_explained .bare .empty w hlength
  obtain ⟨rows, hlined, -, hread, -⟩ := hrows (by decide) 20
  have hsize : a.value.toInt = -2 := hvalue.trans (by decide)
  have hreorder : [grows, same, shrinks].Perm [same, shrinks, grows] := by decide
  obtain ⟨a', ha', hsame, hlast⟩ := hperm (commit [grows, same, shrinks]) hreorder
  exact ⟨hlength, a, total 20, ha, hsize, hsize ▸ (htotal 20).2, ⟨rows, hlined, hread⟩, a', ha',
    hsame, hlast 20⟩

end CommitMarking
