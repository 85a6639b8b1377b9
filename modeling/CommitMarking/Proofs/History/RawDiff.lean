import CommitMarking.History.RawDiff
import CommitMarking.Proofs.Text.Lines
import CommitMarking.Proofs.Text.Utf8
import Mathlib.Data.List.Forall2

namespace CommitMarking

open Text

namespace RawRecord

def headerFields (r : RawRecord) : List String := [r.oldMode, r.newMode, r.oldId, r.newId, r.status]

/-- The record can be told from its printed form: no field holds what ends it, and the path is not
empty. -/
structure Plain (r : RawRecord) : Prop where
  space : ∀ field ∈ r.headerFields, ' ' ∉ field.toList
  zero : ∀ field ∈ r.headerFields, '\x00' ∉ field.toList
  colon : r.oldMode.toList.head? ≠ some ':'
  path_ne : r.path ≠ ""
  path_zero : '\x00' ∉ r.path.toList

instance : DecidablePred Plain := fun _ =>
  decidable_of_iff (_ ∧ _ ∧ _ ∧ _ ∧ _)
    ⟨fun ⟨space, zero, colon, path_ne, path_zero⟩ => ⟨space, zero, colon, path_ne, path_zero⟩,
      fun h => ⟨h.space, h.zero, h.colon, h.path_ne, h.path_zero⟩⟩

structure Told (r : RawRecord) (c : RawChange) : Prop where
  oldId : c.oldId = r.oldId
  newId : c.newId = r.newId
  status : r.status.toList.head? = some c.status
  path : c.path = r.path

variable {r : RawRecord}

theorem told_change (h : r.status ≠ "") : r.Told r.change := by
  refine ⟨rfl, rfl, ?_, rfl⟩
  cases hs : r.status.toList with
  | nil => exact absurd (String.toList_inj.1 hs) h
  | cons c cs => rw [change, hs, List.head?_cons, List.headD_cons]

theorem not_isLink_iff : (!r.isLink) = true ↔ r.oldMode ≠ "160000" ∧ r.newMode ≠ "160000" := by
  rw [isLink, linkMode, Bool.not_or, Bool.and_eq_true, Bool.not_eq_true', Bool.not_eq_true',
    decide_eq_false_iff_not, decide_eq_false_iff_not]

theorem toList_header (r : RawRecord) :
    r.header.toList = ':' :: [' '].intercalate (r.headerFields.map String.toList) := by
  rw [header, String.toList_append, String.toList_intercalate]
  rfl

theorem Plain.zero_not_mem_header (h : r.Plain) : '\x00' ∉ r.header.toList := by
  have hf := h.zero
  simp only [headerFields, List.forall_mem_cons] at hf
  simp [toList_header, headerFields, List.intercalate, hf]

theorem Plain.dropWhile_header (h : r.Plain) :
    r.header.toList.dropWhile (· = ':') = [' '].intercalate (r.headerFields.map String.toList) := by
  have hc := h.colon
  rw [toList_header, List.dropWhile_cons_of_pos (by simp)]
  simp only [headerFields, List.map_cons]
  cases hm : r.oldMode.toList with
  | nil => simp [List.intercalate]
  | cons c cs =>
      rw [hm, List.head?_cons, ne_eq, Option.some_inj] at hc
      simp [List.intercalate, hc]

theorem Plain.ofFields?_header (h : r.Plain) (path : String) :
    ofFields? r.header path = some { r with path } := by
  have hs : (([' '].intercalate (r.headerFields.map String.toList)).splitOn ' ').map String.ofList =
      r.headerFields := map_ofList_splitOn_intercalate (by simp [headerFields]) h.space
  rw [ofFields?, h.dropWhile_header, hs]
  rfl

theorem header_ne (r : RawRecord) : r.header ≠ "" := by
  intro he
  have := r.toList_header
  rw [he] at this
  cases this

end RawRecord

namespace RawDiff

variable {records : List RawRecord}

section Fields

variable {field : Bytes} (hz : 0 ∉ field) (hne : field ≠ [])

include hz hne

theorem fields_append_zero (raw : Bytes) : fields (field ++ 0 :: raw) = field :: fields raw := by
  rw [fields, List.splitOn_append_cons_self, List.splitOn_eq_singleton hz, List.singleton_append,
    List.filter_cons_of_pos (by simpa using hne), fields]

theorem fields_eq_singleton : fields field = [field] := by
  rw [fields, List.splitOn_eq_singleton hz, List.filter_cons_of_pos (by simpa using hne),
    List.filter_nil]

end Fields

theorem fields_encode_append {r : RawRecord} (h : r.Plain) (raw : Bytes) :
    fields (r.encode ++ raw) = Utf8.encode r.header :: Utf8.encode r.path :: fields raw := by
  have hraw : r.encode ++ raw =
      Utf8.encode r.header ++ 0 :: (Utf8.encode r.path ++ 0 :: raw) := by simp [RawRecord.encode]
  rw [hraw, fields_append_zero (Utf8.zero_not_mem_encode h.zero_not_mem_header)
      (Utf8.encode_ne_nil r.header_ne),
    fields_append_zero (Utf8.zero_not_mem_encode h.path_zero) (Utf8.encode_ne_nil h.path_ne)]

theorem records?_encode_append (h : ∀ r ∈ records, r.Plain) (raw : Bytes) :
    records? (fields (records.flatMap RawRecord.encode ++ raw)) =
      (records? (fields raw)).map (records ++ ·) := by
  induction records with
  | nil =>
      rw [List.flatMap_nil, List.nil_append]
      cases records? (fields raw) <;> rfl
  | cons r rs ih =>
      have hr := h r (List.mem_cons_self ..)
      rw [List.flatMap_cons, List.append_assoc, fields_encode_append hr, records?,
        Utf8.lossy_encode, Utf8.lossy_encode, hr.ofFields?_header,
        ih fun s hs => h s (List.mem_cons_of_mem _ hs)]
      cases records? (fields raw) <;> rfl

/-- Records are read as they are printed, whatever their paths look like. -/
theorem records?_encode (h : ∀ r ∈ records, r.Plain) :
    records? (fields (records.flatMap RawRecord.encode)) = .ok records := by
  have hrecords := records?_encode_append h []
  rw [List.append_nil] at hrecords
  rw [hrecords]
  exact congrArg Except.ok (List.append_nil records)

/-- Reading a raw diff undoes printing it: of each record that is not about a submodule there is a
change, in the order of the records. -/
theorem changes_survive_printing (h : ∀ r ∈ records, r.Plain ∧ r.status ≠ "") :
    ∃ changes, parse? (records.flatMap RawRecord.encode) = .ok changes ∧
      List.Forall₂ RawRecord.Told
        (records.filter fun r => r.oldMode ≠ "160000" ∧ r.newMode ≠ "160000") changes := by
  have hparse : parse? (records.flatMap RawRecord.encode) =
      .ok ((records.filter (!·.isLink)).map RawRecord.change) := by
    rw [parse?, records?_encode fun r hr => (h r hr).1]
    rfl
  have hfilter : records.filter (!·.isLink) =
      records.filter fun r => r.oldMode ≠ "160000" ∧ r.newMode ≠ "160000" := by
    refine List.filter_congr fun r _ => ?_
    rw [Bool.eq_iff_iff, RawRecord.not_isLink_iff, decide_eq_true_iff]
  refine ⟨_, hparse, ?_⟩
  rw [← hfilter, List.forall₂_map_right_iff, List.forall₂_same]
  exact fun r hr => RawRecord.told_change (h r (List.mem_of_mem_filter hr)).2

/-- Paths that look like records, and a submodule between two files. -/
theorem changes_survive_printing_disguised :
    let added : RawRecord := ⟨"000000", "100644", "00", "a1", "A", ":160000 160000 b c M"⟩
    let linked : RawRecord := ⟨"160000", "160000", "b", "c", "M", "lib"⟩
    let renamed : RawRecord := ⟨"100644", "100755", ":d", "e", "R100", ": \n"⟩
    (∀ r ∈ [added, linked, renamed], r.Plain ∧ r.status ≠ "") ∧
      ∃ changes, parse? ([added, linked, renamed].flatMap RawRecord.encode) = .ok changes ∧
        List.Forall₂ RawRecord.Told [added, renamed] changes := by
  intro added linked renamed
  have h : ∀ r ∈ [added, linked, renamed], r.Plain ∧ r.status ≠ "" := by decide +kernel
  exact ⟨h, changes_survive_printing h⟩

end RawDiff

end CommitMarking
