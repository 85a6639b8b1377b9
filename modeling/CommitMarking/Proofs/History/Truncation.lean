import CommitMarking.Proofs.History.RawDiff

namespace CommitMarking

open Text

namespace RawRecord

def unended (r : RawRecord) : Bytes := Utf8.encode r.header ++ 0 :: Utf8.encode r.path

/-- The record has been printed up to a place inside of it: something is there, and something of its
header, of the zero that ends the header or of its path is missing. -/
structure BreaksOff (r : RawRecord) (piece : Bytes) : Prop where
  begun : piece ≠ []
  isPrefix : piece <+: r.unended
  missing : piece ≠ r.unended

instance (r : RawRecord) (piece : Bytes) : Decidable (r.BreaksOff piece) :=
  decidable_of_iff (_ ∧ _ ∧ _)
    ⟨fun ⟨begun, isPrefix, missing⟩ => ⟨begun, isPrefix, missing⟩,
      fun h => ⟨h.begun, h.isPrefix, h.missing⟩⟩

def headerPart (r : RawRecord) (piece : Bytes) : Bytes := piece.take (Utf8.encode r.header).length

def pathPart (r : RawRecord) (piece : Bytes) : Bytes :=
  piece.drop ((Utf8.encode r.header).length + 1)

variable {r : RawRecord} {piece : Bytes}

theorem encode_eq (r : RawRecord) : r.encode = r.unended ++ [0] := by
  rw [encode, unended, List.append_assoc, List.cons_append]

section Parts

theorem headerPart_of_isPrefix (h : piece <+: Utf8.encode r.header) : r.headerPart piece = piece :=
  List.take_of_length_le h.length_le

theorem pathPart_of_isPrefix (h : piece <+: Utf8.encode r.header) : r.pathPart piece = [] :=
  List.drop_eq_nil_of_le (Nat.le_succ_of_le h.length_le)

variable (part : Bytes)

theorem headerPart_append :
    r.headerPart (Utf8.encode r.header ++ 0 :: part) = Utf8.encode r.header := by
  rw [headerPart, List.take_left]

theorem pathPart_append : r.pathPart (Utf8.encode r.header ++ 0 :: part) = part := by
  rw [pathPart, List.drop_length_add_append, List.drop_one, List.tail_cons]

end Parts

/-- A record breaks off in its header, or with a part of its path after the zero. -/
theorem BreaksOff.cases (h : r.BreaksOff piece) :
    piece <+: Utf8.encode r.header ∨
      ∃ part, piece = Utf8.encode r.header ++ 0 :: part ∧ part <+: Utf8.encode r.path ∧
        part ≠ Utf8.encode r.path := by
  obtain ⟨missing, hm⟩ := h.isPrefix
  rcases List.append_eq_append_iff.1 hm with ⟨rest, hheader, -⟩ | ⟨back, hpiece, hback⟩
  · exact .inl ⟨rest, hheader.symm⟩
  · rcases List.cons_eq_append_iff.1 hback with ⟨rfl, -⟩ | ⟨part, rfl, hpath⟩
    · rw [List.append_nil] at hpiece
      exact .inl (hpiece ▸ List.prefix_refl _)
    · refine .inr ⟨part, hpiece, ⟨missing, hpath.symm⟩, fun hall => h.missing ?_⟩
      rw [hpiece, hall, unended]

end RawRecord

namespace RawDiff

variable {r : RawRecord} {piece : Bytes}

theorem records?_broken_header (h : r.Plain) (hb : r.BreaksOff piece)
    (hp : r.pathPart piece = []) :
    records? (fields piece) = .error (.recordWithoutPath (Utf8.lossy (r.headerPart piece))) := by
  have hzero : 0 ∉ Utf8.encode r.header := Utf8.zero_not_mem_encode h.zero_not_mem_header
  rcases hb.cases with hheader | ⟨part, rfl, -, -⟩
  · have hz : 0 ∉ piece := fun hm => hzero (hheader.subset hm)
    rw [fields_eq_singleton hz hb.begun, records?, RawRecord.headerPart_of_isPrefix hheader]
  · rw [RawRecord.pathPart_append] at hp
    rw [hp, fields_append_zero hzero (Utf8.encode_ne_nil r.header_ne), RawRecord.headerPart_append]
    rfl

/-- A path that breaks off is read as if it were whole. -/
theorem records?_broken_path (h : r.Plain) (hb : r.BreaksOff piece)
    (hp : r.pathPart piece ≠ []) :
    records? (fields piece) = .ok [{ r with path := Utf8.lossy (r.pathPart piece) }] := by
  have hzero : 0 ∉ Utf8.encode r.header := Utf8.zero_not_mem_encode h.zero_not_mem_header
  rcases hb.cases with hheader | ⟨part, rfl, hpart, -⟩
  · exact absurd (RawRecord.pathPart_of_isPrefix hheader) hp
  · rw [RawRecord.pathPart_append] at hp ⊢
    have hz : 0 ∉ part := fun hm => Utf8.zero_not_mem_encode h.path_zero (hpart.subset hm)
    rw [fields_append_zero hzero (Utf8.encode_ne_nil r.header_ne), fields_eq_singleton hz hp,
      records?, Utf8.lossy_encode, h.ofFields?_header]
    rfl

/-- A diff that breaks off inside of a record is refused if nothing of the record's path is there.
From the first byte of the path on, what there is of it is taken for the whole: the record is read
with its own ids and a path that is cut off. -/
theorem parse?_breaksOff {records done : List RawRecord} (plain : ∀ s ∈ records, s.Plain)
    (hr : done ++ [r] <+: records) (hb : r.BreaksOff piece) :
    let raw := done.flatMap RawRecord.encode ++ piece
    let part := r.pathPart piece
    let seen : RawRecord := { r with path := Utf8.lossy part }
    raw <+: records.flatMap RawRecord.encode ∧
    (part = [] →
      parse? raw = .error (.recordWithoutPath (Utf8.lossy (r.headerPart piece)))) ∧
    (part ≠ [] →
      parse? raw = .ok (((done ++ [seen]).filter (!·.isLink)).map RawRecord.change) ∧
      part <+: Utf8.encode r.path ∧ part ≠ Utf8.encode r.path) := by
  intro raw part seen
  have hplain : r.Plain := plain r (hr.subset (by simp))
  have hrecords : records? (fields raw) = (records? (fields piece)).map (done ++ ·) :=
    records?_encode_append (fun s hs => plain s (hr.subset (by simp [hs]))) piece
  refine ⟨?_, fun hp => ?_, fun hp => ⟨?_, ?_⟩⟩
  · obtain ⟨rest, rfl⟩ := hr
    have hpiece : piece <+: r.encode ++ rest.flatMap RawRecord.encode := by
      rw [RawRecord.encode_eq, List.append_assoc]
      exact hb.isPrefix.trans (List.prefix_append _ _)
    rw [List.append_assoc, List.flatMap_append, List.singleton_append, List.flatMap_cons]
    exact (List.prefix_append_right_inj _).2 hpiece
  · rw [parse?, hrecords, records?_broken_header hplain hb hp]
    rfl
  · rw [parse?, hrecords, records?_broken_path hplain hb hp]
    rfl
  · rcases hb.cases with hheader | ⟨cut, hpiece, hcut⟩
    · exact absurd (RawRecord.pathPart_of_isPrefix hheader) hp
    · have hpart : part = cut := by rw [← RawRecord.pathPart_append (r := r) cut, ← hpiece]
      rwa [hpart]

/-- The last letter of the second path is missing. -/
theorem parse?_breaksOff_in_path :
    let kept : RawRecord := ⟨"000000", "100644", "00", "a1", "A", "Keep.java"⟩
    let added : RawRecord := ⟨"000000", "100644", "00", "b2", "A", "src/Main.java"⟩
    let piece : Bytes := Utf8.encode added.header ++ 0 :: Utf8.encode "src/Main.jav"
    ((∀ s ∈ [kept, added], s.Plain) ∧ [kept] ++ [added] <+: [kept, added] ∧ added.BreaksOff piece) ∧
      parse? ([kept].flatMap RawRecord.encode ++ piece) =
        .ok [⟨"00", "a1", 'A', "Keep.java"⟩, ⟨"00", "b2", 'A', "src/Main.jav"⟩] := by
  intro kept added piece
  have hplain : ∀ s ∈ [kept, added], s.Plain := by decide +kernel
  have hrecords : [kept] ++ [added] <+: [kept, added] := List.prefix_refl _
  have hbreaks : added.BreaksOff piece := by decide +kernel
  obtain ⟨-, -, hread⟩ := parse?_breaksOff hplain hrecords hbreaks
  refine ⟨⟨hplain, hrecords, hbreaks⟩, (hread (by decide +kernel)).1.trans ?_⟩
  decide +kernel

end RawDiff

end CommitMarking
