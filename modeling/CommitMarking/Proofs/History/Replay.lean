import CommitMarking.Proofs.Arithmetic
import CommitMarking.Proofs.History.Telling

namespace CommitMarking

/-- The contents of all paths once the entry is replayed. It can be replayed only where the path has
the content that the entry starts from. -/
def Entry.replay? (content : String → Bytes) (e : Entry) : Option (String → Bytes) :=
  if e.before = content e.path then some (Function.update content e.path e.after) else none

def replay? (content : String → Bytes) (entries : List Entry) : Option (String → Bytes) :=
  entries.foldlM Entry.replay? content

def totalLength (paths : Finset String) (content : String → Bytes) : Int :=
  ∑ path ∈ paths, ((content path).length : Int)

section Replay

variable {content old new : String → Bytes} {entries : List Entry}

theorem replay?_cons (e : Entry) (entries : List Entry) (content : String → Bytes) :
    replay? content (e :: entries) = (e.replay? content).bind (replay? · entries) :=
  List.foldlM_cons ..

theorem replay?_append (xs ys : List Entry) (content : String → Bytes) :
    replay? content (xs ++ ys) = (replay? content xs).bind (replay? · ys) :=
  List.foldlM_append ..

/-- Entries of different paths can be replayed in any order. -/
theorem replay?_eq_some (nodup : (entries.map (·.path)).Nodup)
    (sides : ∀ e ∈ entries, e.before = old e.path ∧ e.after = new e.path)
    (same : ∀ path, path ∉ entries.map (·.path) → old path = new path) :
    replay? old entries = some new := by
  induction entries generalizing old with
  | nil => exact congrArg some (funext fun path => same path (by simp))
  | cons e es ih =>
      rw [List.map_cons, List.nodup_cons] at nodup
      rw [List.forall_mem_cons] at sides
      rw [replay?_cons, Entry.replay?, if_pos sides.1.1]
      -- the other entries have other paths, so they still start from what they say
      refine ih nodup.2 (fun d hd => ?_) fun path hp => ?_
      · have hne : d.path ≠ e.path := fun h => nodup.1 (h ▸ List.mem_map_of_mem hd)
        rw [Function.update_of_ne hne]
        exact sides.2 d hd
      · by_cases he : path = e.path
        · rw [he, Function.update_self, sides.1.2]
        · rw [Function.update_of_ne he]
          exact same path (by simp [he, hp])

theorem totalLength_update {paths : Finset String} {path : String} (h : path ∈ paths)
    (content : String → Bytes) (after : Bytes) :
    totalLength paths (Function.update content path after) =
      totalLength paths content + (after.length - (content path).length) := by
  have hrest : ∑ p ∈ paths.erase path, ((Function.update content path after p).length : Int) =
      ∑ p ∈ paths.erase path, ((content p).length : Int) :=
    Finset.sum_congr rfl fun p hp => by rw [Function.update_of_ne (Finset.ne_of_mem_erase hp)]
  rw [totalLength, totalLength, ← Finset.add_sum_erase _ _ h, ← Finset.add_sum_erase _ _ h, hrest,
    Function.update_self]
  ring

/-- Replaying entries adds up what they grow by. -/
theorem totalLength_of_replay? {paths : Finset String} (hp : ∀ e ∈ entries, e.path ∈ paths)
    (h : replay? old entries = some new) :
    totalLength paths new = totalLength paths old + (entries.map Entry.growth).sum := by
  induction entries generalizing old with
  | nil =>
      cases h
      simp
  | cons e es ih =>
      rw [List.forall_mem_cons] at hp
      rw [replay?_cons, Entry.replay?] at h
      split at h
      next hbefore =>
          rw [ih hp.2 h, totalLength_update hp.1, ← hbefore, List.map_cons, List.sum_cons,
            Entry.growth]
          ring
      next => cases h

theorem sum_size_eq_ofInt (cs : List Commit) :
    (cs.map Commit.size).sum = Int64.ofInt ((cs.flatMap Commit.entries).map Entry.growth).sum := by
  induction cs with
  | nil => rfl
  | cons c cs ih =>
      rw [List.map_cons, List.sum_cons, ih, Commit.size_eq_ofInt_growth, Commit.growth,
        ← Int64.ofInt_add, List.flatMap_cons, List.map_append, List.sum_append]

end Replay

namespace Snapshot

variable {s old new : Snapshot} {store : ObjectId → Bytes}

theorem find?_eq_some {f : String × TreeFile} (h : f ∈ s.files) : s.find? f.1 = some f.2 := by
  obtain ⟨front, back, hs⟩ := List.append_of_mem h
  refine List.lookup_eq_some_iff.2 ⟨front, back, hs, fun g hg => ?_⟩
  have hnodup := s.nodup
  rw [hs, List.map_append, List.map_cons, List.nodup_append] at hnodup
  exact bne_iff_ne.2 fun he => hnodup.2.2 g.1 (List.mem_map_of_mem hg) f.1 (by simp) he.symm

theorem totalLength_content {paths : Finset String} (h : ∀ path ∈ s.paths, path ∈ paths) :
    totalLength paths (s.content store) = s.size store := by
  have hsub : s.paths.toFinset ⊆ paths := fun path hp => h path (List.mem_toFinset.1 hp)
  have hzero : ∀ path ∈ paths, path ∉ s.paths.toFinset →
      ((s.content store path).length : Int) = 0 := fun path _ hp => by
    rw [content, find?_eq_none fun hm => hp (List.mem_toFinset.2 hm)]
    rfl
  have hpaths : ∑ path ∈ s.paths.toFinset, ((s.content store path).length : Int) =
      (s.paths.map fun path => ((s.content store path).length : Int)).sum :=
    List.sum_toFinset _ s.nodup
  have hfile : ∀ f ∈ s.files, ((s.content store f.1).length : Int) = (store f.2.id).length :=
    fun f hf => by rw [content, find?_eq_some hf, TreeFile.content]
  have hfiles : (s.paths.map fun path => ((s.content store path).length : Int)) =
      s.files.map fun f => ((store f.2.id).length : Int) := by
    rw [Snapshot.paths, List.map_map]
    exact List.map_congr_left hfile
  rw [totalLength, ← Finset.sum_subset hsub hzero, hpaths, hfiles, size,
    Nat.cast_list_sum, List.map_map]
  rfl

theorem Diff.replay?_entries {records : List RawRecord} (h : old.Diff new records) :
    replay? (old.content store) (records.map (Diff.entry store old new)) =
      some (new.content store) := by
  have hpaths : (records.map (Diff.entry store old new)).map (·.path) = records.map (·.path) := by
    rw [List.map_map]
    rfl
  refine replay?_eq_some (hpaths ▸ h.nodup) ?_ fun path hp => ?_
  · simp [Diff.entry]
  · rw [hpaths] at hp
    have hfiles : old.find? path = new.find? path :=
      Decidable.byContradiction fun hne => hp (h.mem_map_path_iff.2 hne)
    rw [content, content, hfiles]

theorem sum_size_of_replay? {cs : List Commit}
    (h : replay? (fun _ => []) (cs.flatMap Commit.entries) = some (s.content store)) :
    (cs.map Commit.size).sum = Int64.ofNat (s.size store) := by
  let touched := ((cs.flatMap Commit.entries).map (·.path) ++ s.paths).toFinset
  have hentries : ∀ e ∈ cs.flatMap Commit.entries, e.path ∈ touched := fun e he =>
    List.mem_toFinset.2 (List.mem_append_left _ (List.mem_map_of_mem he))
  have hpaths : ∀ path ∈ s.paths, path ∈ touched := fun path hp =>
    List.mem_toFinset.2 (List.mem_append_right _ hp)
  have htotal := totalLength_of_replay? hentries h
  rw [totalLength_content hpaths] at htotal
  rw [sum_size_eq_ofInt, ← Int64.ofInt_eq_ofNat, htotal]
  simp [totalLength]

end Snapshot

namespace Repository

variable {r : Repository} {t : FileTree} {store : ObjectId → Bytes}

theorem Knows.replay?_commitsOf {parent : Option Revision} {vs : List Revision} {v : Revision}
    {k : Nat} (h : Knows r t store parent vs) (hv : vs[k]? = some v) :
    replay? ((Revision.treeBefore parent).content store)
      (((r.commitsOf t (parent.map (·.id.text)) (vs.map (·.id.text))).take (k + 1)).flatMap
        Commit.entries) = some (v.tree.content store) := by
  induction vs generalizing parent k with
  | nil => cases hv
  | cons u us ih =>
      obtain ⟨records, hd, hentries, -⟩ := h.exists_entriesOf
      have hfirst : replay? ((Revision.treeBefore parent).content store)
          (r.commitOf t (parent.map (·.id.text)) u.id.text).entries =
            some (u.tree.content store) := by
        rw [commitOf, hentries, hd.replay?_entries]
      rw [List.map_cons, commitsOf, List.take_succ_cons, List.flatMap_cons, replay?_append, hfirst,
        Option.bind_some]
      cases k with
      | zero =>
          cases hv
          rfl
      | succ k => exact ih h.tail hv

/-- Loading the history of a repository gives a commit for each revision. Replayed up to one of them
they give the contents of all paths in its tree, and their sizes add up to the size of the tree. -/
theorem history_replays (hr : r.machine.resident? "git" = none) {w : World}
    {revisions : List Revision} (tells : r.Tells w.files store revisions) :
    ∃ cs, (r.history.run w).1 = .ok cs ∧ cs.map (·.id) = revisions.map (·.id.text) ∧
      ∀ (k : Nat) (v : Revision), revisions[k]? = some v →
        replay? (fun _ => []) ((cs.take (k + 1)).flatMap Commit.entries) =
          some (v.tree.content store) ∧
        ((cs.take (k + 1)).map Commit.size).sum = Int64.ofNat (v.tree.size store) ∧
        (v.tree.size store < 2 ^ 63 →
          ((cs.take (k + 1)).map Commit.size).sum.toInt = v.tree.size store) := by
  refine ⟨_, tells.history_run hr rfl, r.ids_commitsOf w.files none _, fun k v hv => ?_⟩
  have hreplay : replay? (fun _ => [])
      (((r.commitsOf w.files none (revisions.map (·.id.text))).take (k + 1)).flatMap
        Commit.entries) = some (v.tree.content store) := tells.toKnows.replay?_commitsOf hv
  have hsize := Snapshot.sum_size_of_replay? hreplay
  exact ⟨hreplay, hsize, fun hlt => by rw [hsize, Int64.toInt_ofNat_of_lt hlt]⟩

theorem history_replays_sample :
    Sample.repository.machine.resident? "git" = none ∧
    Sample.repository.Tells ⟨[]⟩ Sample.store Sample.revisions ∧
    ∃ cs v, (Sample.repository.history.run (.fresh ⟨[]⟩)).1 = .ok cs ∧
      Sample.revisions[2]? = some v ∧
      replay? (fun _ => []) ((cs.take 3).flatMap Commit.entries) =
        some (v.tree.content Sample.store) ∧
      ((cs.take 3).map Commit.size).sum.toInt = 23 := by
  obtain ⟨v, hv, hsize⟩ : ∃ v, Sample.revisions[2]? = some v ∧ v.tree.size Sample.store = 23 :=
    ⟨_, rfl, by decide +kernel⟩
  obtain ⟨cs, hrun, -, h⟩ := history_replays rfl (w := .fresh ⟨[]⟩) Sample.tells
  obtain ⟨hreplay, -, hsum⟩ := h 2 v hv
  rw [hsize] at hsum
  exact ⟨rfl, Sample.tells, cs, v, hrun, hv, hreplay, hsum (by decide)⟩

end Repository

end CommitMarking
