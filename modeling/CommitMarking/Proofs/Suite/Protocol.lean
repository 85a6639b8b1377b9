import CommitMarking.Proofs.Suite.Roundtrip
import CommitMarking.Proofs.Text.Utf8
import CommitMarking.Suite.Host
import CommitMarking.Testing
import Mathlib.Data.List.Basic

namespace CommitMarking

namespace Text

theorem charLines_append_newline (cs rest : List Char) :
    charLines (cs ++ '\n' :: rest) = (cs.splitOn '\n').map dropReturn ++ charLines rest := by
  have hne : rest.splitOn '\n' ≠ [] := List.splitOn_ne_nil _ _
  simp only [charLines, List.splitOn_append_cons_self, List.dropLast_append_of_ne_nil hne,
    List.getLast?_append_of_ne_nil _ hne, List.map_append, List.append_assoc]

theorem exists_lines_append {p : Bytes} (h : p = [] ∨ p.getLast? = some 10) :
    ∃ ls, ∀ bs, lines (Utf8.lossy (p ++ bs)) = ls ++ lines (Utf8.lossy bs) := by
  rcases h with rfl | h
  · exact ⟨[], fun bs => rfl⟩
  · obtain ⟨front, rfl⟩ := List.getLast?_eq_some_iff.1 h
    obtain ⟨cs, hcs⟩ := Utf8.exists_lossy_append_newline front
    refine ⟨((cs.splitOn '\n').map dropReturn).map String.ofList, fun bs => ?_⟩
    rw [List.append_assoc, List.singleton_append, lines, hcs, charLines_append_newline,
      List.map_append]
    rfl

theorem lines_append_newline {line : List Char} (hn : '\n' ∉ line)
    (hr : line.getLast? ≠ some '\r') :
    lines (String.ofList (line ++ ['\n'])) = [String.ofList line] := by
  rw [lines, String.toList_ofList, charLines_append_newline, List.splitOn_eq_singleton hn]
  simp [dropReturn, hr, charLines]

end Text

namespace SuiteOutcome

theorem lastLine?_eq {s line : String} {front : List String} (hs : Text.lines s = front ++ [line])
    (hb : Text.blank line = false) : lastLine? s = some line := by
  rw [lastLine?, hs, List.reverse_append]
  simp [hb]

end SuiteOutcome

namespace SuiteReport

theorem newline_not_mem_encodeChar (c : Char) : '\n' ∉ encodeChar c := by
  have hd : ∀ n < 16, '\n' ≠ hexDigit n := by decide
  unfold encodeChar
  split
  case h_8 =>
    split
    case isTrue h =>
      have h1 := hd (c.toNat / 16) (by omega)
      have h2 := hd (c.toNat % 16) (by omega)
      simp [h1, h2]
    case isFalse h =>
      rintro (_ | ⟨_, ⟨⟩⟩)
      exact h (by decide)
  all_goals decide

theorem newline_not_mem_encodeText (s : String) : '\n' ∉ encodeText s := by
  simp [encodeText, newline_not_mem_encodeChar]

theorem newline_not_mem_encodeFailure (failure : Option String) :
    '\n' ∉ encodeFailure failure := by
  cases failure with
  | none => decide
  | some message => exact newline_not_mem_encodeText message

theorem newline_not_mem_encodeCase (c : CaseOutcome) : '\n' ∉ encodeCase c := by
  rw [← List.append_nil (encodeCase c), encodeCase_append]
  simp [newline_not_mem_encodeText, newline_not_mem_encodeFailure]

theorem newline_not_mem_encodeCases (cs : List CaseOutcome) : '\n' ∉ encodeCases cs := by
  induction cs with
  | nil => exact List.not_mem_nil
  | cons c cs ih =>
      cases cs with
      | nil => exact newline_not_mem_encodeCase c
      | cons d cs =>
          rw [← List.append_nil (encodeCases _), encodeCases_append, List.append_nil]
          simp [newline_not_mem_encodeCase, ih]

theorem newline_not_mem_encode (r : SuiteReport) : '\n' ∉ r.encode := by
  rw [encode_eq]
  simp [newline_not_mem_encodeText, newline_not_mem_encodeCases]

theorem getLast?_encode (r : SuiteReport) : r.encode.getLast? = some '\x7d' := by
  rw [encode_eq]
  simp [List.getLast?_cons, List.getLast?_append]

theorem blank_encode (r : SuiteReport) : Text.blank (String.ofList r.encode) = false := by
  rw [Text.blank, String.toList_ofList, encode_eq]
  rfl

def printed (r : SuiteReport) : Bytes := Text.Utf8.encode (String.ofList (r.encode ++ ['\n']))

theorem encode_append_newline (r : SuiteReport) :
    Text.Utf8.encode (String.ofList r.encode) ++ Text.Utf8.encode "\n" = r.printed := by
  simp [printed, Text.Utf8.encode]

/-- The report is the last line of an output that ends with it, whatever stands on the lines before
it. -/
theorem lastLine?_append_printed (r : SuiteReport) {p : Bytes}
    (hp : p = [] ∨ p.getLast? = some 10) :
    SuiteOutcome.lastLine? (Text.Utf8.lossy (p ++ r.printed)) = some (String.ofList r.encode) := by
  obtain ⟨front, h⟩ := Text.exists_lines_append hp
  have hr : r.encode.getLast? ≠ some '\r' := by rw [getLast?_encode]; decide
  have hlines : Text.lines (Text.Utf8.lossy (p ++ r.printed)) =
      front ++ [String.ofList r.encode] := by
    rw [h, printed, Text.Utf8.lossy_encode, Text.lines_append_newline r.newline_not_mem_encode hr]
  exact SuiteOutcome.lastLine?_eq hlines r.blank_encode

end SuiteReport

theorem SuiteOutcome.ofExecution_append_printed (r : SuiteReport) {p : Bytes}
    (hp : p = [] ∨ p.getLast? = some 10) (stderr : Bytes) (held : Nat) :
    ofExecution r.suite ⟨some 0, p ++ r.printed, stderr, held⟩ = completed r.cases := by
  have hl := r.lastLine?_append_printed hp
  simp [ofExecution, ofOutput, Execution.stdoutText, hl, r.read?_encode]

theorem Sink.taken_of_holds {s : Sink} {bytes : Bytes} (h : s.holds bytes.length = true) :
    s.taken bytes = bytes := by
  unfold holds at h
  unfold taken
  cases hroom : s.room with
  | none => rfl
  | some n =>
      rw [hroom] at h
      exact List.take_of_length_le (by simpa using h)

theorem Sink.writeLine_ok {s : Sink} {document : Bytes}
    (h : (s.writeLine document).1 = .ok ()) :
    (s.writeLine document).2 = document ++ Text.Utf8.encode "\n" := by
  refine taken_of_holds ?_
  by_contra hall
  unfold writeLine at h
  rw [Bool.not_eq_true] at hall
  simp only [hall] at h
  split at h <;> cases h

namespace Registry

theorem deliver_ok {sink : Sink} {r report : SuiteReport} {out : Bytes}
    (h : deliver sink r = (.ok report, out)) : report = r ∧ out = r.printed := by
  have hw := @Sink.writeLine_ok sink (Text.Utf8.encode (String.ofList r.encode))
  unfold deliver at h
  generalize sink.writeLine _ = line at h hw
  rcases line with ⟨e | _, written⟩
  · cases h
  · cases h
    exact ⟨rfl, (hw rfl).trans r.encode_append_newline⟩

theorem name_of_get? {r : Registry} {suite : String} {s : TestSuite} (h : r.get? suite = some s) :
    s.name = suite := by
  have hn := List.find?_some h
  exact of_decide_eq_true hn

theorem serve_ok {r : Registry} {m : Machine} {sink : Sink} {suite : String} {place : Place}
    {w : World} {report : SuiteReport} {out : Bytes}
    (h : ((r.serve m sink suite place).run w).1 = (.ok report, out)) :
    report.suite = suite ∧ out = report.printed := by
  unfold serve at h
  cases hs : r.get? suite with
  | none => rw [hs] at h; cases h
  | some s =>
      rw [hs] at h
      obtain ⟨hr, hout⟩ := deliver_ok (r := ((s.run m place).run w).1) h
      rw [hr]
      exact ⟨name_of_get? hs, hout⟩

/-- What a suite host writes after whole lines of other output is understood as the outcomes that it
reported. -/
theorem serve_understood {r : Registry} {m : Machine} {sink : Sink} {suite : String} {place : Place}
    {w : World} {report : SuiteReport} {out p : Bytes}
    (hs : ((r.serve m sink suite place).run w).1 = (.ok report, out))
    (hp : p = [] ∨ p.getLast? = some 10) (stderr : Bytes) (held : Nat) :
    SuiteOutcome.ofExecution suite ⟨some 0, p ++ out, stderr, held⟩ = .completed report.cases := by
  obtain ⟨hsuite, hout⟩ := serve_ok hs
  rw [← hsuite, hout]
  exact SuiteOutcome.ofExecution_append_printed report hp stderr held

/-- A report after bytes that are not text and a line that looks like another report. -/
theorem serve_understood_noisy :
    ∃ out, (((Registry.ofSuites [⟨"\"s\"", [⟨"\n", .check fun _ _ => .failed ""⟩,
          ⟨"\\", .check fun _ _ => .passed⟩]⟩]).serve .bare .unlimited "\"s\"" (.ok [])).run
        (.fresh ⟨[]⟩)).1 = (.ok ⟨"\"s\"", [⟨"\n", some ""⟩, ⟨"\\", none⟩]⟩, out) ∧
      SuiteOutcome.ofExecution "\"s\""
          ⟨some 0, (0xFF :: SuiteReport.printed ⟨"\"s\"", []⟩) ++ out, [], 0⟩ =
        .completed [⟨"\n", some ""⟩, ⟨"\\", none⟩] := by
  have hp : (0xFF :: SuiteReport.printed ⟨"\"s\"", []⟩).getLast? = some 10 := by decide
  exact Exists.imp (fun _ hs => ⟨hs, serve_understood hs (.inr hp) [] 0⟩) ⟨_, rfl⟩

end Registry

end CommitMarking
