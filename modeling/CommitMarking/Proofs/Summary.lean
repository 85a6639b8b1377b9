import CommitMarking.Proofs.Independence
import CommitMarking.Proofs.Lists
import CommitMarking.Proofs.Text.Rows

namespace CommitMarking.Report

open Text

def closing (row : String) : String := afterLast '[' row

def readMark? (row : String) : Option Int64 := Decimal.int64? (beforeFirst ' ' (closing row))

def rowLine (width : Nat) (r : Report) : String := line r.commit.id '.' r.rowText width

theorem summary_eq_unlines (width : Nat) (reports : List Report) :
    summary width reports =
      unlines ([rule '-' width, "Summary", rule '-' width] ++ reports.map (rowLine width) ++
        [rule '-' width, "GitMark Total: " ++ Decimal.ofInt (total reports).toInt]) := by
  have hrows : String.join (reports.map (row width)) = unlines (reports.map (rowLine width)) :=
    (unlines_map (rowLine width) reports).symm
  rw [summary, hrows, unlines_append, unlines_append, ← String.toList_inj]
  simp [unlines]

section Rows

variable {c : Char} (width : Nat) (r : Report)

theorem rowText_eq_error {r : Report} (h : r.mark = none) : r.rowText = "[error]" := by
  rw [rowText, h]

theorem rowText_eq_marks {r : Report} {mark : Int64} (h : r.mark = some mark) :
    r.rowText = "[" ++ Decimal.ofInt mark.toInt ++ " marks]" := by
  rw [rowText, h]

theorem closing_line (left : String) {right : String} (h : '[' ∉ right.toList) :
    closing (line left '.' ("[" ++ right) width) = right := by
  rw [closing, line, ← String.append_assoc]
  exact afterLast_append h _

theorem closing_rowLine_error {r : Report} (h : r.mark = none) :
    closing (r.rowLine width) = "error]" := by
  have hsplit : "[error]" = "[" ++ "error]" := by decide
  rw [rowLine, rowText_eq_error h, hsplit]
  exact closing_line width r.commit.id (by decide)

theorem closing_rowLine_marks {r : Report} {mark : Int64} (h : r.mark = some mark) :
    closing (r.rowLine width) = Decimal.ofInt mark.toInt ++ " marks]" := by
  rw [rowLine, rowText_eq_marks h, String.append_assoc]
  refine closing_line width r.commit.id ?_
  have hmark : '[' ∉ (Decimal.ofInt mark.toInt).toList :=
    Decimal.not_mem_ofInt (by decide) (by decide) _
  simp [hmark]

theorem readMark?_rowLine : readMark? (r.rowLine width) = r.mark := by
  cases h : r.mark with
  | none =>
      rw [readMark?, closing_rowLine_error width h]
      decide
  | some mark =>
      have hmark : ' ' ∉ (Decimal.ofInt mark.toInt).toList :=
        Decimal.not_mem_ofInt (by decide) (by decide) _
      have hsplit : Decimal.ofInt mark.toInt ++ " marks]" =
          Decimal.ofInt mark.toInt ++ ' '.toString ++ "marks]" := by
        rw [String.append_assoc]
        rfl
      rw [readMark?, closing_rowLine_marks width h, hsplit, beforeFirst_append hmark,
        Decimal.int64?_ofInt]

theorem closing_rowLine_iff : closing (r.rowLine width) = "error]" ↔ r.mark = none := by
  refine ⟨fun h => ?_, closing_rowLine_error width⟩
  rw [← readMark?_rowLine width r, readMark?, h]
  decide

theorem newline_not_mem_rowLine {r : Report} (h : '\n' ∉ r.commit.id.toList) :
    '\n' ∉ (r.rowLine width).toList := by
  refine not_mem_line h (by decide) (by decide) ?_ width
  cases hm : r.mark with
  | none =>
      rw [rowText_eq_error hm]
      decide
  | some mark =>
      have hmark : '\n' ∉ (Decimal.ofInt mark.toInt).toList :=
        Decimal.not_mem_ofInt (by decide) (by decide) _
      rw [rowText_eq_marks hm]
      simp [hmark]

/-- A row begins with the id of its commit and ends with the mark or an error, and is filled up to the
width. -/
def Shows (r : Report) (row : String) : Prop :=
  ∃ gap right, row = r.commit.id ++ " " ++ gap ++ " " ++ right ∧
    row.length = max width (r.commit.id.length + right.length + 2) ∧
    ((∃ mark, r.mark = some mark ∧ right = "[" ++ Decimal.ofInt mark.toInt ++ " marks]") ∨
      r.mark = none ∧ right = "[error]")

theorem shows_rowLine : r.Shows width (r.rowLine width) := by
  refine ⟨_, r.rowText, rfl, length_line .., ?_⟩
  cases h : r.mark with
  | none => exact .inr ⟨rfl, rowText_eq_error h⟩
  | some mark => exact .inl ⟨mark, rfl, rowText_eq_marks h⟩

end Rows

theorem lined_summary (width : Nat) {reports : List Report}
    (hid : ∀ r ∈ reports, '\n' ∉ r.commit.id.toList) :
    Lined (summary width reports)
      ([rule '-' width, "Summary", rule '-' width] ++ reports.map (rowLine width) ++
        [rule '-' width, "GitMark Total: " ++ Decimal.ofInt (total reports).toInt]) := by
  rw [summary_eq_unlines]
  refine lined_unlines fun l hl => ?_
  have hrule : '\n' ∉ (rule '-' width).toList := not_mem_fill (by decide) width
  have htotal : '\n' ∉ (Decimal.ofInt (total reports).toInt).toList :=
    Decimal.not_mem_ofInt (by decide) (by decide) _
  simp only [List.mem_append, List.mem_cons, List.mem_map, List.not_mem_nil, or_false] at hl
  rcases hl with ((rfl | rfl | rfl) | ⟨r, hr, rfl⟩) | rfl | rfl
  · exact hrule
  · decide
  · exact hrule
  · exact newline_not_mem_rowLine width (hid r hr)
  · exact hrule
  · simp [htotal]

/-- A summary can be read. It has a line for each report, from which the mark is read back whatever
the id of the commit looks like, and what is read adds up to the total that is printed. -/
theorem summary_adds_up (width : Nat) {reports : List Report}
    (hid : ∀ r ∈ reports, '\n' ∉ r.commit.id.toList) (hrange : InRange reports) :
    ∃ rows ls,
      ls = [rule '-' width, "Summary", rule '-' width] ++ rows ++ [rule '-' width,
        "GitMark Total: " ++ Decimal.ofInt ((rows.filterMap readMark?).map Int64.toInt).sum] ∧
      Lined (summary width reports) ls ∧ ls.length = reports.length + 5 ∧
      List.Forall₂ (Shows width) reports rows ∧ rows.map readMark? = reports.map mark ∧
      rows.countP (closing · = "error]") = countFailed reports := by
  have hread : (reports.map (rowLine width)).map readMark? = reports.map mark := by
    rw [List.map_map]
    refine List.map_congr_left fun r _ => ?_
    rw [Function.comp_apply, readMark?_rowLine]
  have hmarks : (reports.map (rowLine width)).filterMap readMark? = reports.filterMap mark :=
    filterMap_eq_of_map_eq hread
  have hlined := lined_summary width hid
  rw [hrange.toInt_total, markSum, ← hmarks] at hlined
  refine ⟨reports.map (rowLine width), _, rfl, hlined, by simp, ?_, hread, ?_⟩
  · rw [List.forall₂_map_right_iff, List.forall₂_same]
    exact fun r _ => shows_rowLine width r
  · rw [List.countP_map, countFailed]
    exact List.countP_congr fun r _ => by simp [closing_rowLine_iff]

/-- The ids look like the ends of rows, and the second row does not fit. -/
theorem summary_adds_up_brackets :
    let report (id : String) (outcome : Except MarkError (Evaluation .int)) : Report :=
      ⟨⟨id, "", none, none, []⟩, outcome⟩
    let reports := [report "é ... [9 marks]" (.ok ⟨-5, .nothing⟩),
      report "[error] that does not fit" (.ok ⟨12, .nothing⟩),
      report "[7 marks" (.error (.io .notFound))]
    (∀ r ∈ reports, '\n' ∉ r.commit.id.toList) ∧ InRange reports ∧
      ∃ rows, Lined (summary 30 reports) ([rule '-' 30, "Summary", rule '-' 30] ++ rows ++
          [rule '-' 30, "GitMark Total: 7"]) ∧
        rows.map readMark? = [some (-5), some 12, none] ∧
        rows.countP (closing · = "error]") = 1 := by
  intro report reports
  have hid : ∀ r ∈ reports, '\n' ∉ r.commit.id.toList := by decide
  have hsum : markSum reports = 7 := by decide
  have hrange : InRange reports := by rw [InRange, hsum]; decide
  obtain ⟨rows, ls, rfl, hlined, -, -, hread, hfailed⟩ := summary_adds_up 30 hid hrange
  have hmarks : rows.filterMap readMark? = [-5, 12] := by
    rw [filterMap_eq_of_map_eq hread]
    decide
  rw [hmarks] at hlined
  exact ⟨hid, hrange, rows, hlined, hread, hfailed⟩

end CommitMarking.Report
