import CommitMarking.Proofs.History.Loading
import CommitMarking.Proofs.History.RawDiff
import Mathlib.Algebra.GroupWithZero.Nat

namespace CommitMarking

open Text

structure ObjectId where
  text : String
  length_text : text.length = 40
  hex : ∀ c ∈ text.toList, c ∈ "0123456789abcdef".toList
  deriving DecidableEq, Repr

structure TreeFile where
  mode : String
  id : ObjectId
  digits : ∀ c ∈ mode.toList, c.isDigit
  not_link : mode ≠ RawRecord.linkMode
  not_null : id.text ≠ Repository.nullId
  deriving DecidableEq, Repr

structure Snapshot where
  files : List (String × TreeFile)
  nodup : (files.map Prod.fst).Nodup
  path_ne : ∀ path ∈ files.map Prod.fst, path ≠ ""
  path_zero : ∀ path ∈ files.map Prod.fst, '\x00' ∉ path.toList
  deriving DecidableEq, Repr

structure Revision where
  id : ObjectId
  tree : Snapshot
  deriving DecidableEq, Repr

namespace TreeFile

def modeText : Option TreeFile → String
  | none => "000000"
  | some f => f.mode

def idText : Option TreeFile → String
  | none => Repository.nullId
  | some f => f.id.text

def content (store : ObjectId → Bytes) : Option TreeFile → Bytes
  | none => []
  | some f => store f.id

end TreeFile

namespace Snapshot

def empty : Snapshot := ⟨[], List.nodup_nil, by simp, by simp⟩

def paths (s : Snapshot) : List String := s.files.map Prod.fst

def find? (s : Snapshot) (path : String) : Option TreeFile := s.files.lookup path

def content (s : Snapshot) (store : ObjectId → Bytes) (path : String) : Bytes :=
  TreeFile.content store (s.find? path)

def size (s : Snapshot) (store : ObjectId → Bytes) : Nat :=
  (s.files.map fun f => (store f.2.id).length).sum

/-- The records tell the two trees apart: one record, in whatever place, for each path at which they
differ, with what they have there. -/
structure Diff (old new : Snapshot) (records : List RawRecord) : Prop where
  nodup : (records.map (·.path)).Nodup
  differs : ∀ c ∈ records, old.find? c.path ≠ new.find? c.path
  complete : ∀ path ∈ old.paths ++ new.paths, old.find? path ≠ new.find? path →
    path ∈ records.map (·.path)
  modes : ∀ c ∈ records, c.oldMode = TreeFile.modeText (old.find? c.path) ∧
    c.newMode = TreeFile.modeText (new.find? c.path)
  ids : ∀ c ∈ records, c.oldId = TreeFile.idText (old.find? c.path) ∧
    c.newId = TreeFile.idText (new.find? c.path)
  status : ∀ c ∈ records, ' ' ∉ c.status.toList ∧ '\x00' ∉ c.status.toList

end Snapshot

namespace Revision

def treeBefore : Option Revision → Snapshot
  | none => .empty
  | some v => v.tree

def steps : Option Revision → List Revision → List (Option Revision × Revision)
  | _, [] => []
  | before, v :: vs => (before, v) :: steps (some v) vs

end Revision

namespace Repository

/-- Git knows the revisions, each of which comes after the one before it and the first after
`parent`: it logs them, prints their diffs and has the contents of their files. -/
structure Knows (r : Repository) (t : FileTree) (store : ObjectId → Bytes)
    (parent : Option Revision) (revisions : List Revision) : Prop where
  log : ∀ v ∈ revisions, ∀ format ∈ ["--format=%s", "--format=%ct"],
    ∃ out, r.answer t (logArgs format v.id.text) = .ok out
  diff : ∀ step ∈ Revision.steps parent revisions, ∃ records,
    (Revision.treeBefore step.1).Diff step.2.tree records ∧
      r.answer t (diffArgs (step.1.map (·.id.text)) step.2.id.text) =
        .ok (records.flatMap RawRecord.encode)
  blob : ∀ v ∈ parent.toList ++ revisions, ∀ f ∈ v.tree.files,
    r.answer t (blobArgs f.2.id.text) = .ok (store f.2.id)

def idLines (revisions : List Revision) : Bytes :=
  revisions.flatMap fun v => Utf8.encode (v.id.text ++ "\n")

/-- Git answers as a repository with the linear history of the revisions does. -/
structure Tells (r : Repository) (t : FileTree) (store : ObjectId → Bytes)
    (revisions : List Revision) : Prop extends Knows r t store none revisions where
  listing : r.answer t listArgs = .ok (idLines revisions)

end Repository

theorem RawDiff.records_encode {records : List RawRecord} (h : ∀ r ∈ records, r.Plain) :
    RawDiff.records (records.flatMap RawRecord.encode) = records.filter (!·.isLink) := by
  rw [RawDiff.records, RawDiff.records?_encode h]

namespace ObjectId

theorem eq_of_text {o p : ObjectId} (h : o.text = p.text) : o = p := by
  cases o
  cases p
  cases h
  rfl

theorem isBlank_eq_false (o : ObjectId) : ∀ c ∈ o.text.toList, isBlank c = false := by
  have h : "0123456789abcdef".toList.all (!isBlank ·) = true := by decide
  intro c hc
  simpa using List.all_eq_true.1 h c (o.hex c hc)

theorem toList_text_ne_nil (o : ObjectId) : o.text.toList ≠ [] := by
  intro h
  have hl := o.length_text
  rw [← String.length_toList, h] at hl
  cases hl

theorem plain (o : ObjectId) : ' ' ∉ o.text.toList ∧ '\x00' ∉ o.text.toList := by
  have h : ' ' ∉ "0123456789abcdef".toList ∧ '\x00' ∉ "0123456789abcdef".toList := by decide
  exact ⟨fun hm => h.1 (o.hex _ hm), fun hm => h.2 (o.hex _ hm)⟩

end ObjectId

namespace TreeFile

variable (side : Option TreeFile)

theorem modeText_digits : ∀ c ∈ (modeText side).toList, c.isDigit := by
  cases side with
  | none => exact List.all_eq_true.1 (by decide : "000000".toList.all Char.isDigit = true)
  | some f => exact f.digits

theorem modeText_plain : ' ' ∉ (modeText side).toList ∧ '\x00' ∉ (modeText side).toList :=
  ⟨fun hm => absurd (modeText_digits side _ hm) (by decide),
    fun hm => absurd (modeText_digits side _ hm) (by decide)⟩

theorem head?_modeText_ne : (modeText side).toList.head? ≠ some ':' := fun hh =>
  absurd (modeText_digits side _ (List.mem_of_head? hh)) (by decide)

theorem modeText_ne_linkMode : modeText side ≠ RawRecord.linkMode := by
  cases side with
  | none => decide
  | some f => exact f.not_link

theorem idText_plain : ' ' ∉ (idText side).toList ∧ '\x00' ∉ (idText side).toList := by
  cases side with
  | none => decide
  | some f => exact f.id.plain

end TreeFile

namespace Snapshot

variable {s old new : Snapshot} {store : ObjectId → Bytes} {records : List RawRecord}

theorem find?_eq_none {path : String} (h : path ∉ s.paths) : s.find? path = none := by
  rw [find?, List.lookup_eq_none_iff]
  intro f hf
  rw [bne_iff_ne]
  rintro rfl
  exact h (List.mem_map_of_mem hf)

theorem mem_files_of_find? {path : String} {f : TreeFile} (h : s.find? path = some f) :
    (path, f) ∈ s.files := by
  obtain ⟨front, back, hs, -⟩ := List.lookup_eq_some_iff.1 h
  rw [hs]
  exact List.mem_append_right _ (List.mem_cons_self ..)

theorem mem_paths_of_ne {path : String} (h : old.find? path ≠ new.find? path) :
    path ∈ old.paths ++ new.paths := by
  refine Decidable.byContradiction fun hm => h ?_
  rw [List.mem_append, not_or] at hm
  rw [find?_eq_none hm.1, find?_eq_none hm.2]

namespace Diff

theorem mem_map_path_iff (h : old.Diff new records) {path : String} :
    path ∈ records.map (·.path) ↔ old.find? path ≠ new.find? path := by
  constructor
  · intro hp
    obtain ⟨c, hc, rfl⟩ := List.mem_map.1 hp
    exact h.differs c hc
  · intro hne
    exact h.complete path (mem_paths_of_ne hne) hne

theorem plain (h : old.Diff new records) {c : RawRecord} (hc : c ∈ records) : c.Plain := by
  have hfields : ∀ field ∈ c.headerFields, ' ' ∉ field.toList ∧ '\x00' ∉ field.toList := by
    simp only [RawRecord.headerFields, List.forall_mem_cons, h.modes c hc, h.ids c hc]
    exact ⟨TreeFile.modeText_plain _, TreeFile.modeText_plain _, TreeFile.idText_plain _,
      TreeFile.idText_plain _, h.status c hc, by simp⟩
  have hpath := List.mem_append.1 (mem_paths_of_ne (h.differs c hc))
  refine ⟨fun field hf => (hfields field hf).1, fun field hf => (hfields field hf).2, ?_, ?_, ?_⟩
  · rw [(h.modes c hc).1]
    exact TreeFile.head?_modeText_ne _
  · exact hpath.elim (old.path_ne _) (new.path_ne _)
  · exact hpath.elim (old.path_zero _) (new.path_zero _)

theorem filter_isLink (h : old.Diff new records) : records.filter (!·.isLink) = records := by
  rw [List.filter_eq_self]
  intro c hc
  simp [RawRecord.isLink, h.modes c hc, TreeFile.modeText_ne_linkMode]

theorem records_encode (h : old.Diff new records) :
    RawDiff.records (records.flatMap RawRecord.encode) = records :=
  (RawDiff.records_encode fun _ hc => h.plain hc).trans h.filter_isLink

def entry (store : ObjectId → Bytes) (old new : Snapshot) (c : RawRecord) : Entry :=
  ⟨c.path, old.content store c.path, new.content store c.path⟩

end Diff

end Snapshot

namespace Repository

variable {r : Repository} {t : FileTree} {store : ObjectId → Bytes}

theorem output_eq {args : List String} {out : Bytes} (h : r.answer t args = .ok out) :
    r.output t args = out := by
  rw [output, h]

theorem error?_ask {args : List String} {out : Bytes} (h : r.answer t args = .ok out) :
    (Step.ask args).error? r t = none := by
  rw [Step.error?, h]

theorem error?_read {records : List RawRecord} (h : ∀ c ∈ records, c.Plain) :
    (Step.read (records.flatMap RawRecord.encode)).error? r t = none := by
  rw [Step.error?, RawDiff.parse?, RawDiff.records?_encode h]
  rfl

section Sides

variable {side : Option TreeFile}
  (h : ∀ f, side = some f → r.answer t (blobArgs f.id.text) = .ok (store f.id))

include h

theorem blobContent_idText :
    r.blobContent t (TreeFile.idText side) = TreeFile.content store side := by
  cases side with
  | none => exact if_pos rfl
  | some f => exact (if_neg f.not_null).trans (output_eq (h f rfl))

theorem error?_blobSteps_idText :
    ∀ s ∈ blobSteps (TreeFile.idText side), s.error? r t = none := by
  cases side with
  | none => simp [blobSteps, TreeFile.idText]
  | some f =>
      have hsteps : blobSteps (TreeFile.idText (some f)) = [.ask (blobArgs f.id.text)] :=
        if_neg f.not_null
      rw [hsteps, List.forall_mem_singleton]
      exact error?_ask (h f rfl)

end Sides

namespace Knows

variable {parent : Option Revision} {v : Revision} {vs : List Revision}

theorem tail (k : Knows r t store parent (v :: vs)) : Knows r t store (some v) vs where
  log u hu := k.log u (List.mem_cons_of_mem _ hu)
  diff step hs := k.diff step (List.mem_cons_of_mem _ hs)
  blob u hu := k.blob u (List.mem_append_right _ (by simpa using hu))

theorem blob_before (k : Knows r t store parent (v :: vs)) {path : String} {f : TreeFile}
    (h : (Revision.treeBefore parent).find? path = some f) :
    r.answer t (blobArgs f.id.text) = .ok (store f.id) := by
  cases parent with
  | none => cases h
  | some u => exact k.blob u (by simp) (path, f) (Snapshot.mem_files_of_find? h)

theorem blob_of_find? (k : Knows r t store parent (v :: vs)) {path : String} {f : TreeFile}
    (h : v.tree.find? path = some f) : r.answer t (blobArgs f.id.text) = .ok (store f.id) :=
  k.blob v (by simp) (path, f) (Snapshot.mem_files_of_find? h)

theorem exists_entriesOf (k : Knows r t store parent (v :: vs)) :
    ∃ records, (Revision.treeBefore parent).Diff v.tree records ∧
      r.entriesOf t (parent.map (·.id.text)) v.id.text =
        records.map (Snapshot.Diff.entry store (Revision.treeBefore parent) v.tree) ∧
      ∀ s ∈ r.diffSteps t (parent.map (·.id.text)) v.id.text, s.error? r t = none := by
  obtain ⟨records, hd, ha⟩ := k.diff (parent, v) (List.mem_cons_self ..)
  refine ⟨records, hd, ?_, ?_⟩
  · rw [entriesOf, output_eq ha, hd.records_encode, List.map_inj_left]
    intro c hc
    rw [entryOf, (hd.ids c hc).1, (hd.ids c hc).2, blobContent_idText fun _ => k.blob_before,
      blobContent_idText fun _ => k.blob_of_find?]
    rfl
  · rw [diffSteps, output_eq ha, hd.records_encode]
    simp only [List.forall_mem_cons, List.mem_flatMap, List.mem_append]
    refine ⟨error?_ask ha, error?_read fun _ hc => hd.plain hc, ?_⟩
    rintro s ⟨c, hc, hs | hs⟩
    · rw [(hd.ids c hc).1] at hs
      exact error?_blobSteps_idText (fun _ => k.blob_before) s hs
    · rw [(hd.ids c hc).2] at hs
      exact error?_blobSteps_idText (fun _ => k.blob_of_find?) s hs

/-- The commit of a revision holds what tells its tree from the one before it. -/
theorem exists_commitsOf {vs : List Revision} (k : Knows r t store parent vs) {i : Nat}
    {before : Option Revision} (hi : (Revision.steps parent vs)[i]? = some (before, v)) :
    ∃ c records, (r.commitsOf t (parent.map (·.id.text)) (vs.map (·.id.text)))[i]? = some c ∧
      c.id = v.id.text ∧ (Revision.treeBefore before).Diff v.tree records ∧
      c.entries =
        records.map (Snapshot.Diff.entry store (Revision.treeBefore before) v.tree) := by
  induction vs generalizing parent i with
  | nil => cases hi
  | cons u us ih =>
      cases i with
      | zero =>
          cases hi
          obtain ⟨records, hd, hentries, -⟩ := k.exists_entriesOf
          exact ⟨_, records, rfl, rfl, hd, hentries⟩
      | succ i => exact ih k.tail hi

theorem error?_sequenceSteps {vs : List Revision} (k : Knows r t store parent vs) :
    ∀ s ∈ r.sequenceSteps t (parent.map (·.id.text)) (vs.map (·.id.text)), s.error? r t = none := by
  induction vs generalizing parent with
  | nil => simp [sequenceSteps]
  | cons v vs ih =>
      obtain ⟨-, -, -, hdiff⟩ := k.exists_entriesOf
      obtain ⟨title, htitle⟩ := k.log v (by simp) "--format=%s" (by simp)
      obtain ⟨time, htime⟩ := k.log v (by simp) "--format=%ct" (by simp)
      rw [List.map_cons, sequenceSteps, commitSteps, List.cons_append, List.cons_append,
        List.forall_mem_cons, List.forall_mem_cons, List.forall_mem_append]
      exact ⟨error?_ask htitle, error?_ask htime, hdiff, ih k.tail⟩

end Knows

theorem Tells.listed_eq {revisions : List Revision} (h : Tells r t store revisions) :
    r.listed t = revisions.map (·.id.text) := by
  have hlines : Utf8.lossy (r.output t listArgs) =
      String.ofList ((revisions.map (·.id.text.toList)).flatMap (· ++ ['\n'])) := by
    rw [output_eq h.listing, ← Utf8.lossy_encode (String.ofList _)]
    simp [idLines, Utf8.encode, List.flatMap_assoc, List.flatMap_map]
  rw [listed, hlines, ids_ofList, lineTexts_flatMap_newline, List.map_map]
  · simp
  · simp only [List.forall_mem_map]
    exact fun v _ => ⟨v.id.toList_text_ne_nil, v.id.isBlank_eq_false⟩

/-- A history that git can tell is loaded without an error. -/
theorem Tells.history_run {revisions : List Revision} (h : Tells r t store revisions)
    (hr : r.machine.resident? "git" = none) {w : World} (hw : w.files = t) :
    (r.history.run w).1 = .ok (r.commitsOf t none (revisions.map (·.id.text))) := by
  have hsteps : (r.steps t).findSome? (Step.error? r t) = none := by
    rw [List.findSome?_eq_none_iff, steps, h.listed_eq, List.forall_mem_cons]
    exact ⟨error?_ask h.listing, h.toKnows.error?_sequenceSteps⟩
  rw [history_takes hr w hw, hsteps, h.listed_eq]

end Repository

end CommitMarking
