import CommitMarking.Suite.Reading
import CommitMarking.Suite.Report

namespace CommitMarking

open SuiteReport

def CaseOutcome.failureDocument : Option String → Document
  | none => .null
  | some message => .text (some message)

def CaseOutcome.document (c : CaseOutcome) : Document :=
  .record [(some "name", .text (some c.name)), (some "failure", failureDocument c.failure)]

def SuiteReport.document (r : SuiteReport) : Document :=
  .record [(some "suite", .text (some r.suite)),
    (some "cases", .list (r.cases.map CaseOutcome.document))]

namespace Document

theorem hex?_hexDigit : ∀ n < 16, hex? (hexDigit n) = some n := by
  decide

theorem hex4?_hexDigit {n : Nat} (h : n < 256) :
    hex4? '0' '0' (hexDigit (n / 16)) (hexDigit (n % 16)) = some n := by
  have h0 : hex? '0' = some 0 := by decide
  rw [hex4?, h0, hex?_hexDigit (n / 16) (by omega), hex?_hexDigit (n % 16) (by omega)]
  exact congrArg some (by omega)

theorem ofUnit_toNat {c : Char} (h : c.toNat < 32) : Piece.ofUnit c.toNat = .char c := by
  rw [Piece.ofUnit, if_neg (by omega), Char.ofNat_toNat]

theorem pieces?_plain {c : Char} (hq : c ≠ '"') (hb : c ≠ '\\') (h : ¬c.toNat < 32)
    (rest : List Char) :
    pieces? (c :: rest) = (pieces? rest).map fun p => (.char c :: p.1, p.2) := by
  rw [pieces?, if_neg (by simp [h, hb])]
  · cases pieces? rest <;> rfl
  · simp [hq]
  · simp [hb]
  · simp [hb]

theorem pieces?_named {e c : Char} (hu : e ≠ 'u') (h : named? e = some c) (rest : List Char) :
    pieces? ('\\' :: e :: rest) = (pieces? rest).map fun p => (.char c :: p.1, p.2) := by
  rw [pieces?, h]
  · cases pieces? rest <;> rfl
  · simp [hu]

theorem pieces?_numbered {c : Char} (h : c.toNat < 32) (rest : List Char) :
    pieces? ('\\' :: 'u' :: '0' :: '0' :: hexDigit (c.toNat / 16) :: hexDigit (c.toNat % 16) ::
      rest) = (pieces? rest).map fun p => (.char c :: p.1, p.2) := by
  rw [pieces?, hex4?_hexDigit (by omega)]
  cases pieces? rest with
  | none => rfl
  | some p => exact congrArg (fun q => some (q :: p.1, p.2)) (ofUnit_toNat h)

theorem pieces?_encodeChar (c : Char) (rest : List Char) :
    pieces? (encodeChar c ++ rest) = (pieces? rest).map fun p => (.char c :: p.1, p.2) := by
  unfold encodeChar
  split
  case h_8 hq hb _ _ _ _ _ =>
    split
    case isTrue h => exact pieces?_numbered h rest
    case isFalse h => exact pieces?_plain hq hb h rest
  all_goals exact pieces?_named (by decide) rfl rest

theorem text?_encode (s : String) (rest : List Char) :
    text? (s.toList.flatMap encodeChar ++ '"' :: rest) = some (some s, rest) := by
  have h (cs : List Char) :
      pieces? (cs.flatMap encodeChar ++ '"' :: rest) = some (cs.map .char, rest) := by
    induction cs with
    | nil => rfl
    | cons c cs ih => rw [List.flatMap_cons, List.append_assoc, pieces?_encodeChar, ih]; rfl
  have hj (cs : List Char) : join? (cs.map .char) = some cs := by
    induction cs with
    | nil => rfl
    | cons c cs ih => rw [List.map_cons, join?, ih]; rfl
  rw [text?, h]
  simp [hj]

theorem encodeText_append (s : String) (rest : List Char) :
    encodeText s ++ rest = '"' :: (s.toList.flatMap encodeChar ++ '"' :: rest) := by
  rw [encodeText, List.cons_append, List.cons_append, List.append_assoc, List.singleton_append]

section Steps

variable {fuel : Nat} {v : Document} {cs rest : List Char}

theorem value?_encodeText (s : String) :
    value? (fuel + 1) (encodeText s ++ rest) = some (.text (some s), rest) := by
  rw [encodeText_append, value?]
  simp [skipBlank, text?_encode]

theorem value?_null : value? (fuel + 1) ("null".toList ++ rest) = some (.null, rest) := by
  rfl

theorem value?_record {fs : List (Option String × Document)}
    (h : fields? fuel ('"' :: cs) = some (fs, rest)) :
    value? (fuel + 1) ('\x7b' :: '"' :: cs) = some (.record fs, rest) := by
  rw [value?]
  simp [skipBlank, h]

theorem value?_list {vs : List Document} (h : items? fuel ('\x7b' :: cs) = some (vs, rest)) :
    value? (fuel + 1) ('[' :: '\x7b' :: cs) = some (.list vs, rest) := by
  rw [value?]
  simp [skipBlank, h]

theorem fields?_cons {fs : List (Option String × Document)} {more : List Char} (key : String)
    (hv : value? fuel cs = some (v, ',' :: more)) (hf : fields? fuel more = some (fs, rest)) :
    fields? (fuel + 1) (encodeText key ++ ':' :: cs) = some ((some key, v) :: fs, rest) := by
  rw [encodeText_append, fields?]
  simp [skipBlank, text?_encode, hv, hf]

theorem fields?_last (key : String) (hv : value? fuel cs = some (v, '\x7d' :: rest)) :
    fields? (fuel + 1) (encodeText key ++ ':' :: cs) = some ([(some key, v)], rest) := by
  rw [encodeText_append, fields?]
  simp [skipBlank, text?_encode, hv]

theorem items?_cons {vs : List Document} {more : List Char}
    (hv : value? fuel cs = some (v, ',' :: more)) (hi : items? fuel more = some (vs, rest)) :
    items? (fuel + 1) cs = some (v :: vs, rest) := by
  rw [items?, hv]
  simp [skipBlank, hi]

theorem items?_last (hv : value? fuel cs = some (v, ']' :: rest)) :
    items? (fuel + 1) cs = some ([v], rest) := by
  rw [items?, hv]
  rfl

end Steps

theorem value?_encodeFailure (fuel : Nat) (failure : Option String) (rest : List Char) :
    value? (fuel + 1) (encodeFailure failure ++ rest) =
      some (CaseOutcome.failureDocument failure, rest) := by
  cases failure with
  | none => exact value?_null
  | some message => exact value?_encodeText message

end Document

namespace SuiteReport

open Document

theorem encodeCase_append (c : CaseOutcome) (rest : List Char) :
    encodeCase c ++ rest =
      '\x7b' :: (encodeText "name" ++ ':' :: (encodeText c.name ++ ',' ::
        (encodeText "failure" ++ ':' :: (encodeFailure c.failure ++ '\x7d' :: rest)))) := by
  have h : "\x7b\"name\":".toList = '\x7b' :: (encodeText "name" ++ [':']) := rfl
  have hf : ",\"failure\":".toList = ',' :: (encodeText "failure" ++ [':']) := rfl
  have he : "\x7d".toList = ['\x7d'] := rfl
  unfold encodeCase
  simp only [h, hf, he, List.append_assoc, List.cons_append, List.nil_append]

theorem encode_eq (r : SuiteReport) :
    r.encode =
      '\x7b' :: (encodeText "suite" ++ ':' :: (encodeText r.suite ++ ',' ::
        (encodeText "cases" ++ ':' :: '[' :: (encodeCases r.cases ++ [']', '\x7d'])))) := by
  have h : "\x7b\"suite\":".toList = '\x7b' :: (encodeText "suite" ++ [':']) := rfl
  have hc : ",\"cases\":[".toList = ',' :: (encodeText "cases" ++ [':', '[']) := rfl
  have he : "]\x7d".toList = [']', '\x7d'] := rfl
  unfold encode
  simp only [h, hc, he, List.append_assoc, List.cons_append, List.nil_append]

theorem value?_encodeCase (fuel : Nat) (c : CaseOutcome) (rest : List Char) :
    value? (fuel + 4) (encodeCase c ++ rest) = some (c.document, rest) := by
  rw [encodeCase_append]
  refine value?_record ?_
  refine fields?_cons "name" (value?_encodeText c.name) ?_
  exact fields?_last "failure" (value?_encodeFailure fuel c.failure _)

theorem encodeCases_append (c d : CaseOutcome) (cs : List CaseOutcome) (rest : List Char) :
    encodeCases (c :: d :: cs) ++ rest = encodeCase c ++ ',' :: (encodeCases (d :: cs) ++ rest) := by
  rw [encodeCases, List.append_assoc, List.cons_append]
  intro h
  cases h

theorem exists_encodeCases_eq (c : CaseOutcome) (cs : List CaseOutcome) (rest : List Char) :
    ∃ more, encodeCases (c :: cs) ++ rest = '\x7b' :: more := by
  cases cs with
  | nil => exact ⟨_, encodeCase_append c rest⟩
  | cons d cs => exact ⟨_, (encodeCases_append c d cs rest).trans (encodeCase_append c _)⟩

theorem items?_encodeCases (fuel : Nat) (c : CaseOutcome) (cs : List CaseOutcome)
    (rest : List Char) :
    items? (fuel + cs.length + 5) (encodeCases (c :: cs) ++ ']' :: rest) =
      some ((c :: cs).map CaseOutcome.document, rest) := by
  induction cs generalizing c with
  | nil => exact items?_last (value?_encodeCase fuel c _)
  | cons d cs ih =>
      rw [encodeCases_append]
      exact items?_cons (value?_encodeCase (fuel + cs.length + 1) c _) (ih d)

theorem value?_encodeCases (fuel : Nat) (cs : List CaseOutcome) (rest : List Char) :
    value? (fuel + cs.length + 5) ('[' :: (encodeCases cs ++ ']' :: rest)) =
      some (.list (cs.map CaseOutcome.document), rest) := by
  cases cs with
  | nil => rfl
  | cons c cs =>
      have hi := items?_encodeCases fuel c cs rest
      obtain ⟨more, hs⟩ := exists_encodeCases_eq c cs (']' :: rest)
      rw [hs] at hi ⊢
      exact value?_list hi

theorem value?_encode (fuel : Nat) (r : SuiteReport) :
    value? (fuel + r.cases.length + 8) r.encode = some (r.document, []) := by
  rw [encode_eq]
  refine value?_record ?_
  refine fields?_cons "suite" (value?_encodeText r.suite) ?_
  exact fields?_last "cases" (value?_encodeCases fuel r.cases _)

theorem length_le_encodeCases (cs : List CaseOutcome) : cs.length ≤ (encodeCases cs).length := by
  induction cs with
  | nil => exact Nat.le_refl _
  | cons c cs ih =>
      cases cs with
      | nil =>
          obtain ⟨more, h⟩ := exists_encodeCases_eq c [] []
          rw [List.append_nil] at h
          simp [h]
      | cons d cs =>
          have h := encodeCases_append c d cs []
          rw [List.append_nil, List.append_nil] at h
          rw [h, List.length_append, List.length_cons, List.length_cons]
          exact Nat.le_add_left_of_le (Nat.succ_le_succ ih)

theorem length_add_three_le_encode (r : SuiteReport) : r.cases.length + 3 ≤ r.encode.length := by
  have h := length_le_encodeCases r.cases
  rw [encode_eq]
  simp only [List.length_cons, List.length_append, List.length_nil]
  omega

end SuiteReport

theorem CaseOutcome.ofDocument?_document (c : CaseOutcome) : ofDocument? c.document = some c := by
  rcases c with ⟨name, _ | message⟩ <;> rfl

namespace SuiteReport

theorem cases?_document (cs : List CaseOutcome) :
    cases? (.list (cs.map CaseOutcome.document)) = some cs := by
  rw [cases?]
  induction cs with
  | nil => rfl
  | cons c cs ih => rw [List.map_cons, List.mapM_cons, CaseOutcome.ofDocument?_document, ih]; rfl

theorem ofDocument?_document (r : SuiteReport) : ofDocument? r.document = some r := by
  have h := cases?_document r.cases
  change (cases? (.list (r.cases.map CaseOutcome.document))).bind _ = _
  rw [h]
  rfl

/-- A report is read back from its document as it was. -/
theorem read?_encode (r : SuiteReport) : read? (String.ofList r.encode) = some r := by
  have h : ∃ fuel, 2 * r.encode.length + 2 = fuel + r.cases.length + 8 := by
    have := length_add_three_le_encode r
    exact ⟨2 * r.encode.length + 2 - (r.cases.length + 8), by omega⟩
  obtain ⟨fuel, h⟩ := h
  have hr : Document.read? r.encode = some r.document := by
    rw [Document.read?, h, value?_encode]
    rfl
  rw [read?, String.toList_ofList, hr]
  exact ofDocument?_document r

end SuiteReport

end CommitMarking
