import CommitMarking.Proofs.History.Snapshot

namespace CommitMarking

open Text

/-- A file that differs between two trees, with the ids of its contents on the sides where it is. -/
structure FileChange where
  oldMode : String
  newMode : String
  old : Option String
  new : Option String
  status : String
  path : String
  deriving DecidableEq, Repr

namespace FileChange

def zeroId (width : Nat) : String := String.ofList (List.replicate width '0')

def ids (f : FileChange) : List String := f.old.toList ++ f.new.toList

def sides (width : Nat) (f : FileChange) : List String :=
  [f.old.getD (zeroId width), f.new.getD (zeroId width)]

def record (width : Nat) (f : FileChange) : RawRecord :=
  ⟨f.oldMode, f.newMode, f.old.getD (zeroId width), f.new.getD (zeroId width), f.status, f.path⟩

def print (width : Nat) (files : List FileChange) : Bytes :=
  files.flatMap fun f => (f.record width).encode

def isLink (f : FileChange) : Bool :=
  f.oldMode = RawRecord.linkMode || f.newMode = RawRecord.linkMode

def kept (files : List FileChange) : List FileChange := files.filter (!·.isLink)

def entry (store : String → Bytes) (f : FileChange) : Entry :=
  ⟨f.path, f.old.elim [] store, f.new.elim [] store⟩

structure Formed (width : Nat) (f : FileChange) : Prop where
  plain : (f.record width).Plain
  length_id : ∀ id ∈ f.ids, id.length = width
  ne_zeroId : ∀ id ∈ f.ids, id ≠ zeroId width

instance (width : Nat) : DecidablePred (Formed width) := fun _ =>
  decidable_of_iff (_ ∧ _ ∧ _)
    ⟨fun ⟨plain, length_id, ne_zeroId⟩ => ⟨plain, length_id, ne_zeroId⟩,
      fun h => ⟨h.plain, h.length_id, h.ne_zeroId⟩⟩

/-- No side is absent, or the zeros of one that is are those that are known for it. -/
def Recognised (width : Nat) (f : FileChange) : Prop := width = 40 ∨ f.old ≠ none ∧ f.new ≠ none

variable {width : Nat} {f : FileChange}

theorem length_zeroId (width : Nat) : (zeroId width).length = width := by
  rw [zeroId, String.length_ofList, List.length_replicate]

theorem ne_nullId_of_length {id : String} (h : id.length ≠ 40) : id ≠ Repository.nullId := by
  rintro rfl
  exact h (length_zeroId 40)

theorem mem_sides {id : String} (h : id ∈ f.sides width) : id = zeroId width ∨ id ∈ f.ids := by
  have hside (side : Option String) (hs : id = side.getD (zeroId width)) :
      id = zeroId width ∨ id ∈ side.toList := by
    cases side with
    | none => exact .inl hs
    | some o => exact .inr (List.mem_singleton.2 hs)
  rw [ids, List.mem_append]
  rcases List.mem_cons.1 h with ho | hn
  · exact (hside f.old ho).imp_right .inl
  · exact (hside f.new (List.mem_singleton.1 hn)).imp_right .inr

theorem zeroId_mem_sides (h : ¬f.Recognised width) : zeroId width ∈ f.sides width := by
  cases ho : f.old with
  | none => simp [sides, ho]
  | some o =>
      cases hn : f.new with
      | none => simp [sides, hn]
      | some n => exact absurd (.inr (by simp [ho, hn])) h

theorem Formed.ne_nullId (h : f.Formed width) : ∀ id ∈ f.ids, id ≠ Repository.nullId := by
  intro id hid
  by_cases hw : width = 40
  · subst hw
    exact h.ne_zeroId id hid
  · exact ne_nullId_of_length (by rwa [h.length_id id hid])

theorem filter_side {side : Option String} (hs : ∀ id ∈ side.toList, id ≠ Repository.nullId)
    (hr : width = 40 ∨ side ≠ none) :
    [side.getD (zeroId width)].filter (· ≠ Repository.nullId) = side.toList := by
  cases side with
  | none =>
      obtain rfl := hr.resolve_right (· rfl)
      rw [Option.getD_none, show zeroId 40 = Repository.nullId from rfl]
      simp
  | some id =>
      have hne := hs id (by simp)
      simp [hne]

theorem Formed.filter_sides (h : f.Formed width) (hr : f.Recognised width) :
    (f.sides width).filter (· ≠ Repository.nullId) = f.ids := by
  have hid := h.ne_nullId
  rw [ids, List.forall_mem_append] at hid
  rw [ids, ← filter_side hid.1 (hr.imp_right And.left),
    ← filter_side hid.2 (hr.imp_right And.right), ← List.filter_append]
  rfl

theorem Formed.filter_sides_of_ne (h : f.Formed width) (hw : width ≠ 40) :
    (f.sides width).filter (· ≠ Repository.nullId) = f.sides width := by
  rw [List.filter_eq_self]
  intro id hid
  refine decide_eq_true (ne_nullId_of_length ?_)
  rcases mem_sides hid with rfl | hid
  · rwa [length_zeroId]
  · rwa [h.length_id id hid]

theorem plain_records {files : List FileChange} (h : ∀ f ∈ files, f.Formed width) :
    ∀ c ∈ files.map (record width), c.Plain := by
  rw [List.forall_mem_map]
  exact fun f hm => (h f hm).plain

theorem print_eq (files : List FileChange) :
    print width files = (files.map (record width)).flatMap RawRecord.encode := by
  rw [print, List.flatMap_map]

theorem records_print {files : List FileChange} (h : ∀ f ∈ files, f.Formed width) :
    RawDiff.records (print width files) = (kept files).map (record width) := by
  rw [print_eq, RawDiff.records_encode (plain_records h), List.filter_map]
  rfl

end FileChange

namespace Repository

open FileChange

/-- Git prints what tells two trees apart, in ids of the width, and has the contents of the files on
the sides where they are. -/
structure Shows (r : Repository) (t : FileTree) (parent : Option String) (name : String)
    (width : Nat) (store : String → Bytes) (files : List FileChange) : Prop where
  formed : ∀ f ∈ files, f.Formed width
  printed : r.answer t (diffArgs parent name) = .ok (print width files)
  held : ∀ f ∈ kept files, ∀ id ∈ f.ids, r.answer t (blobArgs id) = .ok (store id)

def callsIn (dir : Location) (asked : List (List String)) : List Call :=
  asked.map (⟨"git", ·, dir⟩)

variable {r : Repository} {t : FileTree} {parent : Option String} {name : String} {width : Nat}
  {store : String → Bytes} {files : List FileChange}

theorem blobSteps_eq (id : String) :
    blobSteps id = ([id].filter (· ≠ nullId)).map fun id => .ask (blobArgs id) := by
  unfold blobSteps
  split <;> simp [*]

theorem blobContent_side {side : Option String}
    (hs : ∀ id ∈ side.toList, id ≠ nullId ∧ r.answer t (blobArgs id) = .ok (store id))
    (hr : width = 40 ∨ side ≠ none) :
    r.blobContent t (side.getD (zeroId width)) = side.elim [] store := by
  cases side with
  | none =>
      obtain rfl := hr.resolve_right (· rfl)
      exact if_pos rfl
  | some id =>
      obtain ⟨hne, ha⟩ := hs id (List.mem_singleton_self id)
      exact (if_neg hne).trans (output_eq ha)

namespace Shows

theorem formed_of_mem (k : Shows r t parent name width store files) :
    ∀ f ∈ kept files, f.Formed width :=
  fun f hf => k.formed f (List.mem_of_mem_filter hf)

theorem diffSteps_eq (k : Shows r t parent name width store files) :
    r.diffSteps t parent name = .ask (diffArgs parent name) :: .read (print width files) ::
      ((kept files).flatMap fun f => (f.sides width).filter (· ≠ nullId)).map
        fun id => .ask (blobArgs id) := by
  rw [diffSteps, output_eq k.printed, records_print k.formed, List.flatMap_map, List.map_flatMap]
  simp only [blobSteps_eq, ← List.map_append, ← List.filter_append]
  rfl

theorem answered_steps (k : Shows r t parent name width store files) {dir : Location}
    (hp : r.place = .ok dir) {asked : List String}
    (ha : ∀ id ∈ asked, ∃ out, r.answer t (blobArgs id) = .ok out) :
    let steps := Step.ask (diffArgs parent name) :: .read (print width files) ::
      asked.map fun id => .ask (blobArgs id)
    steps.findSome? (Step.error? r t) = none ∧
      steps.flatMap (Step.started r t) =
        callsIn dir (diffArgs parent name :: asked.map blobArgs) := by
  intro steps
  constructor
  · have hread : (Step.read (print width files)).error? r t = none := by
      rw [print_eq]
      exact error?_read (plain_records k.formed)
    rw [List.findSome?_eq_none_iff, List.forall_mem_cons, List.forall_mem_cons, List.forall_mem_map]
    refine ⟨error?_ask k.printed, hread, fun id hm => ?_⟩
    obtain ⟨out, hout⟩ := ha id hm
    exact error?_ask hout
  · have hcalls : (asked.map fun id => Step.ask (blobArgs id)).flatMap (Step.started r t) =
        callsIn dir (asked.map blobArgs) := by
      rw [callsIn, List.flatMap_map, List.map_map, List.map_eq_flatMap]
      refine List.flatMap_congr fun id hm => ?_
      obtain ⟨out, hout⟩ := ha id hm
      exact started_of_answer hp hout
    rw [List.flatMap_cons, List.flatMap_cons, hcalls, Step.started, started_of_answer hp k.printed]
    rfl

theorem entriesOf_eq (k : Shows r t parent name width store files)
    (hr : ∀ f ∈ kept files, f.Recognised width) :
    r.entriesOf t parent name = (kept files).map (FileChange.entry store) := by
  rw [entriesOf, output_eq k.printed, records_print k.formed, List.map_map, List.map_inj_left]
  intro f hf
  have hid : ∀ id ∈ f.ids, id ≠ nullId ∧ r.answer t (blobArgs id) = .ok (store id) :=
    fun id hm => ⟨(k.formed_of_mem f hf).ne_nullId id hm, k.held f hf id hm⟩
  rw [FileChange.ids, List.forall_mem_append] at hid
  rw [FileChange.entry, ← blobContent_side hid.1 ((hr f hf).imp_right And.left),
    ← blobContent_side hid.2 ((hr f hf).imp_right And.right)]
  rfl

theorem run_recognised (k : Shows r t parent name width store files)
    (h : r.machine.resident? "git" = none) {dir : Location} (hp : r.place = .ok dir)
    (hr : ∀ f ∈ kept files, f.Recognised width) {w : World} (hw : w.files = t) :
    (r.entries parent name).run w =
      (.ok ((kept files).map (FileChange.entry store)),
        { w with
          calls := w.calls ++ callsIn dir (diffArgs parent name ::
            ((kept files).flatMap FileChange.ids).map blobArgs) }) := by
  have hids : (kept files).flatMap (fun f => (f.sides width).filter (· ≠ nullId)) =
      (kept files).flatMap FileChange.ids :=
    List.flatMap_congr fun f hf => (k.formed_of_mem f hf).filter_sides (hr f hf)
  have hanswered : ∀ id ∈ (kept files).flatMap FileChange.ids,
      ∃ out, r.answer t (blobArgs id) = .ok out := by
    intro id hm
    obtain ⟨f, hf, hid⟩ := List.mem_flatMap.1 hm
    exact ⟨_, k.held f hf id hid⟩
  obtain ⟨hnone, hcalls⟩ := k.answered_steps hp hanswered
  rw [entries_takes h parent name w hw, k.diffSteps_eq, hids, hnone, taken_of_none hnone, hcalls,
    k.entriesOf_eq hr]

/-- The zeros of the first side that is not recognised are asked for when the contents before it
are there. -/
theorem run_unrecognised (k : Shows r t parent name width store files)
    (h : r.machine.resident? "git" = none) {dir : Location} (hp : r.place = .ok dir)
    (hr : ∃ f ∈ kept files, ¬f.Recognised width) {e : GitError}
    (he : r.answer t (blobArgs (zeroId width)) = .error e) {w : World} (hw : w.files = t) :
    ∃ front back, (kept files).flatMap (sides width) = front ++ zeroId width :: back ∧
      zeroId width ∉ front ∧ (r.entries parent name).run w =
        (.error e,
          { w with
            calls := w.calls ++ (callsIn dir (diffArgs parent name :: front.map blobArgs) ++
              r.started t (blobArgs (zeroId width))) }) := by
  obtain ⟨f, hf, hr⟩ := hr
  have hsides : (kept files).flatMap (fun f => (f.sides width).filter (· ≠ nullId)) =
      (kept files).flatMap (sides width) :=
    List.flatMap_congr fun g hg => (k.formed_of_mem g hg).filter_sides_of_ne (hr ∘ .inl)
  -- before the first zeros there is nothing but ids of contents, which git has
  obtain ⟨front, back, hsplit, hnot⟩ :=
    List.eq_append_cons_of_mem (List.mem_flatMap.2 ⟨f, hf, zeroId_mem_sides hr⟩)
  have hanswered : ∀ id ∈ front, ∃ out, r.answer t (blobArgs id) = .ok out := by
    intro id hm
    have hmem : id ∈ (kept files).flatMap (sides width) :=
      hsplit ▸ List.mem_append_left _ hm
    obtain ⟨g, hg, hid⟩ := List.mem_flatMap.1 hmem
    rcases mem_sides hid with rfl | hid
    · exact absurd hm hnot
    · exact ⟨_, k.held g hg id hid⟩
  obtain ⟨hnone, hcalls⟩ := k.answered_steps hp hanswered
  have hzero : (Step.ask (blobArgs (zeroId width))).error? r t = some e := by
    rw [Step.error?, he]
  obtain ⟨hfirst, htaken⟩ := taken_of_error hnone hzero (back.map fun id => .ask (blobArgs id))
  refine ⟨front, back, hsplit, hnot, ?_⟩
  rw [entries_takes h parent name w hw, k.diffSteps_eq, hsides, hsplit, List.map_append,
    List.map_cons, ← List.cons_append, ← List.cons_append, hfirst, htaken, List.flatMap_append,
    hcalls, List.flatMap_singleton]
  rfl

end Shows

/-- Loading the files of a commit whose diff git prints and whose contents it has. If every absent
side is recognised, git is asked for each content that is there, once for each side and in the order
of the records, and for nothing else. But an absent side whose zeros are not forty is asked for like
any other, and if git does not have it, then loading ends with that. -/
theorem entries_run_sides (h : r.machine.resident? "git" = none) (w : World)
    (k : Shows r w.files parent name width store files) :
    let run := (r.entries parent name).run w
    ∃ dir, r.place = .ok dir ∧
      ((∀ f ∈ kept files, width = 40 ∨ f.old ≠ none ∧ f.new ≠ none) →
        run = (.ok ((kept files).map fun f => ⟨f.path, f.old.elim [] store, f.new.elim [] store⟩),
          { w with
            calls := w.calls ++ callsIn dir (diffArgs parent name ::
              ((kept files).flatMap FileChange.ids).map blobArgs) })) ∧
      (width ≠ 40 → (∃ f ∈ kept files, f.old = none ∨ f.new = none) → ∀ e,
        r.answer w.files (blobArgs (zeroId width)) = .error e →
        ∃ front back, (kept files).flatMap (sides width) = front ++ zeroId width :: back ∧
          zeroId width ∉ front ∧ run = (.error e,
            { w with
              calls := w.calls ++ (callsIn dir (diffArgs parent name :: front.map blobArgs) ++
                r.started w.files (blobArgs (zeroId width))) })) := by
  intro run
  obtain ⟨dir, hp⟩ := exists_place_of_answer k.printed
  refine ⟨dir, hp, fun hr => k.run_recognised h hp hr rfl, fun hw ⟨f, hf, hn⟩ e he =>
    k.run_unrecognised h hp ⟨f, hf, ?_⟩ he rfl⟩
  rintro (rfl | ⟨ho, hn'⟩)
  · exact hw rfl
  · exact hn.elim ho hn'

/-- A file is added where ids have 64 digits. -/
theorem entries_run_sides_long_ids :
    let id : String := String.ofList (List.replicate 64 'a')
    let added : FileChange := ⟨"000000", "100644", none, some id, "A", "A.java"⟩
    let answers (args : List String) (out : Bytes) : Rule :=
      { Rule.unmatched "git" with
        args := some (" ".intercalate args), stdout := out, stderr := [], ending := .exit 0 }
    let r : Repository := ⟨.ofRules [answers (diffArgs none "c1") (print 64 [added]),
      answers (blobArgs id) [1]], .ok []⟩
    (r.machine.resident? "git" = none ∧ Shows r ⟨[]⟩ none "c1" 64 (fun _ => [1]) [added]) ∧
      ((r.entries none "c1").run (.fresh ⟨[]⟩)).1 =
        .error (.failed (blobArgs (zeroId 64)) "stub: no rule") := by
  intro id added answers r
  have h : r.machine.resident? "git" = none := rfl
  have k : Shows r ⟨[]⟩ none "c1" 64 (fun _ => [1]) [added] := by
    constructor <;> decide +kernel
  have habsent : ∃ f ∈ kept [added], f.old = none ∨ f.new = none :=
    ⟨added, by decide, .inl rfl⟩
  have hzero : r.answer ⟨[]⟩ (blobArgs (zeroId 64)) =
      .error (.failed (blobArgs (zeroId 64)) "stub: no rule") := by decide +kernel
  obtain ⟨_, _, _, hends⟩ := entries_run_sides h (.fresh ⟨[]⟩) k
  obtain ⟨_, _, _, _, hrun⟩ := hends (by decide) habsent _ hzero
  exact ⟨⟨h, k⟩, congrArg Prod.fst hrun⟩

end Repository

end CommitMarking
