import CommitMarking.Proofs.Checkout.Completion
import CommitMarking.Proofs.History.Telling
import Mathlib.Data.List.Nodup

namespace CommitMarking

namespace Snapshot

structure Fits (dir : Location) (s : Snapshot) : Prop where
  path : ∀ path ∈ s.paths, CommitMarking.Fits dir path
  apart : Apart (s.paths.map fun path => (Route.ofText path).names)

instance (dir : Location) : DecidablePred (Fits dir) := fun _ =>
  decidable_of_iff (_ ∧ _) ⟨fun ⟨path, apart⟩ => ⟨path, apart⟩, fun h => ⟨h.path, h.apart⟩⟩

/-- The trees differ at the path, and it has content now or had none before. A file that was emptied
is passed over, and an empty one that was deleted is not. -/
def Writes (store : ObjectId → Bytes) (old new : Snapshot) (path : String) : Prop :=
  old.find? path ≠ new.find? path ∧ (old.content store path = [] ∨ new.content store path ≠ [])

instance (store : ObjectId → Bytes) (old new : Snapshot) : DecidablePred (Writes store old new) :=
  fun _ => inferInstanceAs (Decidable (_ ∧ _))

end Snapshot

def Obstructed (paths : String → Prop) : Prop :=
  ∃ p q, paths p ∧ paths q ∧ p ≠ q ∧ (Route.ofText p).names <+: (Route.ofText q).names

namespace Snapshot

variable {old new : Snapshot} {store : ObjectId → Bytes} {records : List RawRecord} {dir : Location}
  {path : String}

theorem Writes.mem_paths (h : old.Writes store new path) : path ∈ old.paths ++ new.paths :=
  mem_paths_of_ne h.1

theorem Writes.fits (h : old.Writes store new path) (hold : old.Fits dir) (hnew : new.Fits dir) :
    CommitMarking.Fits dir path :=
  (List.mem_append.1 h.mem_paths).elim (hold.path path) (hnew.path path)

theorem obstructed_iff : Obstructed (old.Writes store new) ↔
    ∃ p ∈ old.paths ++ new.paths, ∃ q ∈ old.paths ++ new.paths,
      old.Writes store new p ∧ old.Writes store new q ∧ p ≠ q ∧
        (Route.ofText p).names <+: (Route.ofText q).names :=
  ⟨fun ⟨p, q, hp, hq, h⟩ => ⟨p, hp.mem_paths, q, hq.mem_paths, hp, hq, h⟩,
    fun ⟨p, _, q, _, h⟩ => ⟨p, q, h⟩⟩

instance : Decidable (Obstructed (old.Writes store new)) := decidable_of_iff' _ obstructed_iff

section Absent

variable (deleted : ∀ path f, old.find? path = some f → new.find? path = none → store f.id ≠ [])

include deleted

theorem Writes.find?_ne_none (h : old.Writes store new path) : new.find? path ≠ none := by
  intro hn
  obtain ⟨hne, hcontent⟩ := h
  rw [hn] at hne
  obtain ⟨f, hf⟩ := Option.ne_none_iff_exists'.1 hne
  rw [content, content, hf, hn] at hcontent
  exact hcontent.elim (deleted path f hf hn) fun h => h rfl

theorem not_obstructed (hnew : new.Fits dir) : ¬Obstructed (old.Writes store new) := by
  rintro ⟨p, q, hp, hq, hne, hpre⟩
  have hmem {path : String} (h : old.Writes store new path) : path ∈ new.paths :=
    Decidable.byContradiction fun hm => h.find?_ne_none deleted (find?_eq_none hm)
  have hnames := hnew.apart _ (List.mem_map_of_mem (hmem hp)) _ (List.mem_map_of_mem (hmem hq)) hpre
  exact hne ((hnew.path p (hmem hp)).names_inj (hnew.path q (hmem hq)) hnames)

end Absent

namespace Diff

def kept (store : ObjectId → Bytes) (old new : Snapshot) (records : List RawRecord) : List Entry :=
  (records.map (entry store old new)).filter fun e => !e.isDeletion && true

theorem after_of_mem_kept {e : Entry} (he : e ∈ kept store old new records) :
    e.after = new.content store e.path := by
  obtain ⟨c, -, rfl⟩ := List.mem_map.1 (List.mem_filter.1 he).1
  rfl

theorem map_path_kept : (kept store old new records).map (·.path) =
    (records.map (·.path)).filter fun path =>
      old.content store path = [] ∨ new.content store path ≠ [] := by
  have hkeep (c : RawRecord) : (!(entry store old new c).isDeletion && true) =
      decide (old.content store c.path = [] ∨ new.content store c.path ≠ []) := by
    cases ho : old.content store c.path <;> cases hn : new.content store c.path <;>
      simp [entry, Entry.isDeletion, ho, hn]
  rw [kept, List.filter_map, List.map_map, List.filter_map]
  exact congrArg (List.map _) (List.filter_congr fun c _ => hkeep c)

theorem nodup_kept (h : old.Diff new records) :
    ((kept store old new records).map (·.path)).Nodup := by
  rw [map_path_kept]
  exact h.nodup.filter _

theorem mem_map_path_kept_iff (h : old.Diff new records) :
    path ∈ (kept store old new records).map (·.path) ↔ old.Writes store new path := by
  rw [map_path_kept, List.mem_filter, h.mem_map_path_iff, decide_eq_true_eq, Writes]

theorem fits_of_mem_kept (store : ObjectId → Bytes) (h : old.Diff new records)
    (hold : old.Fits dir) (hnew : new.Fits dir) :
    ∀ e ∈ kept store old new records, CommitMarking.Fits dir e.path := fun _ he =>
  (h.mem_map_path_kept_iff.1 (List.mem_map_of_mem he)).fits hold hnew

theorem nodup_names_kept (store : ObjectId → Bytes) (h : old.Diff new records)
    (hold : old.Fits dir) (hnew : new.Fits dir) :
    ((kept store old new records).map Entry.names).Nodup :=
  nodup_names (h.fits_of_mem_kept store hold hnew) h.nodup_kept

theorem apart_kept_iff (h : old.Diff new records) (hold : old.Fits dir) (hnew : new.Fits dir) :
    Apart ((kept store old new records).map Entry.names) ↔ ¬Obstructed (old.Writes store new) := by
  have hfits := h.fits_of_mem_kept store hold hnew
  simp only [Apart, List.forall_mem_map]
  constructor
  · rintro hapart ⟨p, q, hp, hq, hne, hpre⟩
    obtain ⟨d, hd, rfl⟩ := List.mem_map.1 (h.mem_map_path_kept_iff.2 hp)
    obtain ⟨e, he, rfl⟩ := List.mem_map.1 (h.mem_map_path_kept_iff.2 hq)
    exact hne ((hfits d hd).names_inj (hfits e he) (hapart d hd e he hpre))
  · intro hclear d hd e he hpre
    have hd := h.mem_map_path_kept_iff.1 (List.mem_map_of_mem hd)
    have he := h.mem_map_path_kept_iff.1 (List.mem_map_of_mem he)
    refine Decidable.byContradiction fun hne => hclear ⟨d.path, e.path, hd, he, fun hp => ?_, hpre⟩
    exact hne (by rw [Entry.names, Entry.names, hp])

theorem run_checkout (h : old.Diff new records) (hold : old.Fits dir) (hnew : new.Fits dir)
    {w : World} (vacant : Vacant dir w.files) :
    let run := (checkout dir (fun _ => true) (records.map (entry store old new))).run w
    (Obstructed (old.Writes store new) → ∃ source, run.1 = .error (.io source)) ∧
    (¬Obstructed (old.Writes store new) → ∃ paths : List String,
      paths.Nodup ∧ (∀ path, path ∈ paths ↔ old.Writes store new path) ∧
      run.1 = .ok (paths.map dir.join) ∧
      ∀ steps content, run.2.files.content? (dir ++ steps) = some content ↔
        ∃ path, old.Writes store new path ∧ (Route.ofText path).names = steps ∧
          new.content store path = content) := by
  intro run
  have hfits := h.fits_of_mem_kept store hold hnew
  have hnodup := h.nodup_names_kept store hold hnew
  constructor
  · intro hobstructed
    obtain ⟨source, v, hrun⟩ := exists_run_eq_io (w := w) hfits hnodup fun hapart =>
      (h.apart_kept_iff hold hnew).1 hapart hobstructed
    exact ⟨source, congrArg Prod.fst hrun⟩
  · intro hclear
    obtain ⟨v, hrun⟩ := exists_run_eq_ok ((h.apart_kept_iff hold hnew).2 hclear) (vacant.fills _)
      hfits fun e he => List.mem_map_of_mem he
    have hcontent := (of_run_eq_ok hrun).2.2.2.content?_eq_some_iff hnodup vacant
    have hrun : run = _ := hrun
    rw [hrun]
    refine ⟨(kept store old new records).map (·.path), h.nodup_kept,
      fun path => h.mem_map_path_kept_iff, ?_, fun steps content => ?_⟩
    · rw [List.map_map]
      rfl
    · rw [hcontent]
      constructor
      · rintro ⟨e, he, hn, hc⟩
        refine ⟨e.path, h.mem_map_path_kept_iff.1 (List.mem_map_of_mem he), hn, ?_⟩
        rw [← after_of_mem_kept he, hc]
      · rintro ⟨path, hp, hn, hc⟩
        obtain ⟨e, he, rfl⟩ := List.mem_map.1 (h.mem_map_path_kept_iff.2 hp)
        exact ⟨e, he, hn, by rw [after_of_mem_kept he, hc]⟩

end Diff

end Snapshot

namespace Repository

/-- Loading a revision of a history and checking it out into an empty directory writes the paths at
which its tree differs from the one before it, except for files that were emptied. It succeeds unless
one of these paths is a directory of another one, which takes an empty file that was deleted. Where
none was, nothing is written that the tree does not have. -/
theorem checkout_revision {r : Repository} (hr : r.machine.resident? "git" = none) {w : World}
    {store : ObjectId → Bytes} {revisions : List Revision} (tells : r.Tells w.files store revisions)
    {k : Nat} {before : Option Revision} {v : Revision}
    (hk : (Revision.steps none revisions)[k]? = some (before, v)) {dir : Location}
    (hold : (Revision.treeBefore before).Fits dir) (hnew : v.tree.Fits dir) {u : World}
    (vacant : Vacant dir u.files) :
    let old := Revision.treeBefore before
    let writes := old.Writes store v.tree
    ∃ cs c, (r.history.run w).1 = .ok cs ∧ cs[k]? = some c ∧ c.id = v.id.text ∧
      let run := (checkout dir (fun _ => true) c.entries).run u
      (Obstructed writes → ∃ source, run.1 = .error (.io source)) ∧
      (¬Obstructed writes → ∃ paths : List String,
        paths.Nodup ∧ (∀ path, path ∈ paths ↔ writes path) ∧
        run.1 = .ok (paths.map dir.join) ∧
        ∀ steps content, run.2.files.content? (dir ++ steps) = some content ↔
          ∃ path, writes path ∧ (Route.ofText path).names = steps ∧
            v.tree.content store path = content) ∧
      ((∀ path f, old.find? path = some f → v.tree.find? path = none → store f.id ≠ []) →
        ¬Obstructed writes ∧ ∀ path, writes path → v.tree.find? path ≠ none) := by
  intro old writes
  obtain ⟨c, records, hc, hid, hdiff, hentries⟩ := tells.toKnows.exists_commitsOf hk
  refine ⟨_, c, tells.history_run hr rfl, hc, hid, ?_⟩
  intro run
  obtain ⟨hobstructed, hclear⟩ := hdiff.run_checkout hold hnew vacant
  rw [← hentries] at hobstructed hclear
  exact ⟨hobstructed, hclear, fun deleted =>
    ⟨Snapshot.not_obstructed deleted hnew, fun path hp => hp.find?_ne_none deleted⟩⟩

def workTree : FileTree := ⟨[(["work"], .directory)]⟩

theorem vacant_workTree : Vacant ["work"] workTree where
  root := rfl
  below steps hs := by simp [workTree, FileTree.find?, hs]

theorem checkout_revision_sample :
    Sample.repository.machine.resident? "git" = none ∧
    Sample.repository.Tells ⟨[]⟩ Sample.store Sample.revisions ∧ Vacant ["work"] workTree ∧
    ∃ before v, (Revision.steps none Sample.revisions)[1]? = some (before, v) ∧
      (Revision.treeBefore before).Fits ["work"] ∧ v.tree.Fits ["work"] ∧
      ∃ cs c, (Sample.repository.history.run (.fresh ⟨[]⟩)).1 = .ok cs ∧ cs[1]? = some c ∧
        ∃ paths : List String, ((checkout ["work"] (fun _ => true) c.entries).run (.fresh workTree)).1 =
          .ok (paths.map (Location.join ["work"])) ∧
        paths.Nodup ∧ ∀ path ∈ ["A.java", "doc/old", "notes"], path ∈ paths ↔ path ≠ "notes" := by
  obtain ⟨before, v, hk, hold, hnew, hclear, hpaths⟩ : ∃ before v,
      (Revision.steps none Sample.revisions)[1]? = some (before, v) ∧
      (Revision.treeBefore before).Fits ["work"] ∧ v.tree.Fits ["work"] ∧
      ¬Obstructed ((Revision.treeBefore before).Writes Sample.store v.tree) ∧
      ∀ path ∈ ["A.java", "doc/old", "notes"],
        (Revision.treeBefore before).Writes Sample.store v.tree path ↔ path ≠ "notes" :=
    ⟨_, _, rfl, by decide +kernel, by decide +kernel, by decide +kernel, by decide +kernel⟩
  obtain ⟨cs, c, hrun, hc, -, -, hcheckout, -⟩ := checkout_revision rfl (w := .fresh ⟨[]⟩)
    Sample.tells hk hold hnew (u := .fresh workTree) vacant_workTree
  obtain ⟨paths, hnodup, hmem, hwritten, -⟩ := hcheckout hclear
  exact ⟨rfl, Sample.tells, vacant_workTree, before, v, hk, hold, hnew, cs, c, hrun, hc, paths,
    hwritten, hnodup, fun path hp => (hmem path).trans (hpaths path hp)⟩

/-- What is written is not what there is: the second of three revisions deletes an empty file, which
is written, and empties another one, which is not. The third has a directory in the place of that one
and cannot be checked out. -/
theorem checkout_ne_changed_files :
    Sample.repository.Tells ⟨[]⟩ Sample.store Sample.revisions ∧ Vacant ["work"] workTree ∧
    (∀ v ∈ Sample.revisions, v.tree.Fits ["work"]) ∧
    ∃ cs c d u v, (Sample.repository.history.run (.fresh ⟨[]⟩)).1 = .ok cs ∧ cs[1]? = some c ∧
      cs[2]? = some d ∧ Sample.revisions[0]? = some u ∧ Sample.revisions[1]? = some v ∧
      (v.tree.find? "doc/old" = none ∧ v.tree.find? "notes" ≠ none ∧
        u.tree.find? "notes" ≠ v.tree.find? "notes") ∧
      (∃ written, ((checkout ["work"] (fun _ => true) c.entries).run (.fresh workTree)).1 =
          .ok written ∧ "/work/doc/old" ∈ written ∧ "/work/notes" ∉ written) ∧
      ∃ source, ((checkout ["work"] (fun _ => true) d.entries).run (.fresh workTree)).1 =
        .error (.io source) := by
  have hfits : ∀ v ∈ Sample.revisions, v.tree.Fits ["work"] := by decide +kernel
  obtain ⟨u, v, x, hu, hv, hx, htwo, hthree, hfind, hwrites, hclear, hobstructed⟩ : ∃ u v x,
      Sample.revisions[0]? = some u ∧ Sample.revisions[1]? = some v ∧
      Sample.revisions[2]? = some x ∧
      (Revision.steps none Sample.revisions)[1]? = some (some u, v) ∧
      (Revision.steps none Sample.revisions)[2]? = some (some v, x) ∧
      (v.tree.find? "doc/old" = none ∧ v.tree.find? "notes" ≠ none ∧
        u.tree.find? "notes" ≠ v.tree.find? "notes") ∧
      (u.tree.Writes Sample.store v.tree "doc/old" ∧ ¬u.tree.Writes Sample.store v.tree "notes") ∧
      ¬Obstructed (u.tree.Writes Sample.store v.tree) ∧
      Obstructed (v.tree.Writes Sample.store x.tree) :=
    ⟨_, _, _, rfl, rfl, rfl, rfl, rfl, by decide +kernel, by decide +kernel, by decide +kernel,
      by decide +kernel⟩
  have hufits := hfits u (List.mem_of_getElem? hu)
  have hvfits := hfits v (List.mem_of_getElem? hv)
  have hxfits := hfits x (List.mem_of_getElem? hx)
  obtain ⟨c, crecords, hc, -, hcdiff, hcentries⟩ := Sample.tells.toKnows.exists_commitsOf htwo
  obtain ⟨d, drecords, hd, -, hddiff, hdentries⟩ := Sample.tells.toKnows.exists_commitsOf hthree
  obtain ⟨paths, -, hmem, hwritten, -⟩ :=
    (hcdiff.run_checkout hufits hvfits (w := .fresh workTree) vacant_workTree).2 hclear
  obtain ⟨source, herror⟩ :=
    (hddiff.run_checkout hvfits hxfits (w := .fresh workTree) vacant_workTree).1 hobstructed
  rw [← hcentries] at hwritten
  rw [← hdentries] at herror
  refine ⟨Sample.tells, vacant_workTree, hfits, _, c, d, u, v,
    Sample.tells.history_run rfl (w := .fresh ⟨[]⟩) rfl, hc, hd, hu, hv, hfind,
    ⟨_, hwritten, ?_, ?_⟩, source, herror⟩
  · exact List.mem_map.2 ⟨"doc/old", (hmem _).2 hwrites.1, by decide +kernel⟩
  · intro hm
    obtain ⟨path, hp, he⟩ := List.mem_map.1 hm
    have hfit := ((hmem path).1 hp).fits hufits hvfits
    have hnotes : "/work/notes" = Location.text ["work"] ++ "/" ++ "notes" := by decide +kernel
    rw [Location.join_of_ne_nil (List.cons_ne_nil _ _) hfit.rooted_eq, hnotes,
      String.append_right_inj] at he
    exact hwrites.2 ((hmem _).1 (he ▸ hp))

end Repository

end CommitMarking
