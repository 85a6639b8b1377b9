import CommitMarking.Proofs.Checkout
import CommitMarking.Proofs.FileSystem.Fitting
import CommitMarking.Proofs.Lists
import Mathlib.Data.List.Nodup

namespace CommitMarking

/-- No way leads through the end of another one. -/
def Apart (ways : List (List String)) : Prop := ∀ a ∈ ways, ∀ b ∈ ways, a <+: b → a = b

instance : DecidablePred Apart := fun ways =>
  inferInstanceAs (Decidable (∀ a ∈ ways, ∀ b ∈ ways, a <+: b → a = b))

/-- What stands below `dir` are files at the ends of some of the ways, and directories on them. -/
structure Fills (dir : Location) (ways : List (List String)) (t : FileTree) : Prop where
  root : t.find? dir = some .directory
  file : ∀ steps content, t.find? (dir ++ steps) = some (.file content) → steps ∈ ways
  directory : ∀ steps, steps ≠ [] → t.find? (dir ++ steps) = some .directory →
    ∃ way ∈ ways, steps <+: way ∧ steps ≠ way

structure Vacant (dir : Location) (t : FileTree) : Prop where
  root : t.find? dir = some .directory
  below : ∀ steps, steps ≠ [] → t.find? (dir ++ steps) = none

variable {dir : Location} {t u v : FileTree} {ways : List (List String)} {entries : List Entry}

theorem Vacant.content?_eq_none (h : Vacant dir t) (steps : List String) :
    t.content? (dir ++ steps) = none := by
  by_cases hs : steps = []
  · rw [hs, List.append_nil, FileTree.content?, h.root]
  · rw [FileTree.content?, h.below steps hs]

theorem Vacant.fills (h : Vacant dir t) (ways : List (List String)) : Fills dir ways t where
  root := h.root
  file steps content hf := by
    have hnone := h.content?_eq_none steps
    rw [FileTree.content?, hf] at hnone
    cases hnone
  directory steps hs hd := by
    rw [h.below steps hs] at hd
    cases hd

namespace Fills

theorem placed {names : List String} {content : Bytes} (h : Fills dir ways t) (hn : names ∈ ways)
    (hp : FileTree.Placed dir names content t (.ok ()) u) : Fills dir ways u := by
  refine ⟨hp.find?_directory h.root, fun steps c hc => ?_, fun steps hs hd => ?_⟩
  · rcases hp.find?_cases steps with ⟨rfl, -⟩ | hu | ⟨hu, -⟩
    · exact hn
    · exact h.file steps c (hu ▸ hc)
    · rw [hu] at hc
      cases hc
  · rcases hp.find?_cases steps with ⟨-, hu⟩ | hu | ⟨-, hpre, hne⟩
    · rw [hu] at hd
      cases hd
    · exact h.directory steps hs (hu ▸ hd)
    · exact ⟨names, hn, hpre, hne⟩

theorem place_eq_ok {path : String} (h : Fills dir ways t) (apart : Apart ways)
    (fits : Fits dir path) (hn : (Route.ofText path).names ∈ ways) (content : Bytes) :
    (t.place dir path content).1 = .ok () := by
  refine FileTree.place_eq_ok fits h.root (fun steps hne hs c hc => ?_) (fun hd => ?_) content
  · exact FileTree.ne_of_isPrefix_dropLast hne hs
      (apart steps (h.file steps c hc) _ hn (hs.trans (List.dropLast_prefix _)))
  · obtain ⟨way, hw, hpre, hne⟩ := h.directory _ fits.names_ne_nil hd
    exact hne (apart _ hn way hw hpre)

end Fills

theorem exists_run_eq_ok {w : World} (apart : Apart ways) (fills : Fills dir ways w.files)
    (fits : ∀ e ∈ entries, Fits dir e.path) (hways : ∀ e ∈ entries, e.names ∈ ways) :
    ∃ v, (entries.mapM (checkoutEntry dir)).run w = (.ok (entries.map (·.target dir)), v) := by
  induction entries generalizing w with
  | nil => exact ⟨w, rfl⟩
  | cons e es ih =>
      rw [List.forall_mem_cons] at fits hways
      have hsafe : ¬Escapes e.path := (Route.inside_iff_not_escapes _).1 fits.1.inside
      have hok := fills.place_eq_ok apart fits.1 hways.1 e.after
      have hplaced := placed_of_not_escapes dir hsafe w.files
      have hrun : (checkoutEntry dir e).run w = _ := run_checkoutEntry hsafe w
      generalize w.files.place dir e.path e.after = placed at hok hplaced hrun
      rcases placed with ⟨result, u⟩
      obtain rfl : result = .ok () := hok
      obtain ⟨v, hv⟩ := ih (w := { w with files := u }) (fills.placed hways.1 hplaced) fits.2 hways.2
      refine ⟨v, ?_⟩
      rw [Act.run_mapM_cons, hrun]
      dsimp only
      rw [hv]
      rfl

namespace AllPlaced

theorem find?_directory {m : Location} (h : AllPlaced dir entries t v)
    (hm : t.find? m = some .directory) : v.find? m = some .directory := by
  induction h with
  | nil => exact hm
  | cons placed _ ih => exact ih (placed.find?_directory hm)

theorem directory_of_mem (h : AllPlaced dir entries t v) {e : Entry} (he : e ∈ entries)
    {steps : List String} (hne : steps ≠ []) (hs : steps <+: e.names.dropLast) :
    v.find? (dir ++ steps) = some .directory := by
  induction h with
  | nil => cases he
  | cons placed rest ih =>
      rcases List.mem_cons.1 he with rfl | he
      · exact rest.find?_directory (placed.directory_of_ok hne hs)
      · exact ih he

end AllPlaced

theorem Fills.allPlaced (h : Fills dir ways t)
    (hplaced : AllPlaced dir entries t v) (hways : ∀ e ∈ entries, e.names ∈ ways) :
    Fills dir ways v := by
  induction hplaced with
  | nil => exact h
  | cons placed _ ih =>
      rw [List.forall_mem_cons] at hways
      exact ih (h.placed hways.1 placed) hways.2

theorem nodup_names (fits : ∀ e ∈ entries, Fits dir e.path)
    (distinct : (entries.map (·.path)).Nodup) : (entries.map Entry.names).Nodup := by
  refine (List.nodup_map_iff_inj_on distinct.of_map).2 fun d hd e he hn => ?_
  exact List.inj_on_of_nodup_map distinct hd he ((fits d hd).names_inj (fits e he) hn)

section Contents

variable {files : Location → Option Bytes}

/-- The last of the entries for a location decides what is there. -/
theorem foldl_writtenTo (files : Location → Option Bytes) (entries : List Entry) (l : Location) :
    entries.foldl (Entry.writtenTo dir) files l =
      ((entries.reverse.find? (dir ++ ·.names = l)).map Entry.after).or (files l) := by
  induction entries generalizing files with
  | nil => rfl
  | cons e es ih =>
      rw [List.foldl_cons, ih, List.reverse_cons, List.find?_append]
      cases es.reverse.find? (dir ++ ·.names = l) with
      | some d => rfl
      | none =>
          rw [Entry.writtenTo, Function.update_apply]
          by_cases he : dir ++ e.names = l
          · simp [he]
          · simp [he, Ne.symm he]

theorem foldl_writtenTo_of_mem (nodup : (entries.map Entry.names).Nodup) {e : Entry}
    (he : e ∈ entries) :
    entries.foldl (Entry.writtenTo dir) files (dir ++ e.names) = some e.after := by
  obtain ⟨before, after, rfl⟩ := List.append_of_mem he
  rw [List.map_append, List.map_cons] at nodup
  have hnot : e.names ∉ after.map Entry.names :=
    (List.nodup_cons.1 (List.nodup_append.1 nodup).2.1).1
  rw [foldl_writtenTo, find?_reverse_eq_some_iff.2 ⟨by simp, before, after, rfl, fun d hd => ?_⟩]
  · rfl
  · rw [decide_eq_false_iff_not, List.append_cancel_left_eq]
    exact fun hn => hnot (hn ▸ List.mem_map_of_mem hd)

end Contents

namespace AllPlaced

theorem content?_eq_some_iff_last (h : AllPlaced dir entries t v) (vacant : Vacant dir t)
    (steps : List String) (content : Bytes) :
    v.content? (dir ++ steps) = some content ↔
      ∃ before e after, entries = before ++ e :: after ∧ e.names = steps ∧ e.after = content ∧
        ∀ d ∈ after, d.names ≠ steps := by
  rw [h.content?_eq, foldl_writtenTo, vacant.content?_eq_none, Option.or_none,
    Option.map_eq_some_iff]
  simp only [find?_reverse_eq_some_iff, List.append_cancel_left_eq, decide_eq_true_eq,
    decide_eq_false_iff_not]
  constructor
  · rintro ⟨e, ⟨hn, before, after, hentries, hlast⟩, hc⟩
    exact ⟨before, e, after, hentries, hn, hc, hlast⟩
  · rintro ⟨before, e, after, hentries, hn, hc, hlast⟩
    exact ⟨e, ⟨hn, before, after, hentries, hlast⟩, hc⟩

variable (nodup : (entries.map Entry.names).Nodup)

include nodup

theorem content?_eq_some_iff (h : AllPlaced dir entries t v) (vacant : Vacant dir t)
    (steps : List String) (content : Bytes) :
    v.content? (dir ++ steps) = some content ↔
      ∃ e ∈ entries, e.names = steps ∧ e.after = content := by
  constructor
  · intro hc
    obtain ⟨before, e, after, rfl, hn, hcontent, -⟩ :=
      (h.content?_eq_some_iff_last vacant steps content).1 hc
    exact ⟨e, by simp, hn, hcontent⟩
  · rintro ⟨e, he, rfl, rfl⟩
    rw [h.content?_eq]
    exact foldl_writtenTo_of_mem nodup he

theorem apart (h : AllPlaced dir entries t v) (fits : ∀ e ∈ entries, Fits dir e.path) :
    Apart (entries.map Entry.names) := by
  simp only [Apart, List.forall_mem_map]
  intro d hd e he hpre
  refine Decidable.byContradiction fun hne => ?_
  have hdrop : d.names <+: e.names.dropLast := by
    obtain ⟨rest, hr⟩ := hpre
    have hrest : rest ≠ [] := by
      rintro rfl
      exact hne (by simpa using hr)
    rw [← hr, List.dropLast_append_of_ne_nil hrest]
    exact List.prefix_append _ _
  -- at the end of the shorter way there would be a directory on the longer one and a file at once
  have hdirectory : v.find? (dir ++ d.names) = some .directory :=
    h.directory_of_mem he (fits d hd).names_ne_nil hdrop
  have hfile := congrFun h.content?_eq (dir ++ d.names)
  rw [foldl_writtenTo_of_mem nodup hd, FileTree.content?, hdirectory] at hfile
  cases hfile

end AllPlaced

theorem exists_run_eq_io {w : World} (fits : ∀ e ∈ entries, Fits dir e.path)
    (nodup : (entries.map Entry.names).Nodup) (h : ¬Apart (entries.map Entry.names)) :
    ∃ source v, (entries.mapM (checkoutEntry dir)).run w = (.error (.io source), v) := by
  rcases Act.run_mapM_cases (checkoutEntry dir) entries w with
    ⟨written, v, hok⟩ | ⟨done, e, rest, written, v, x, u, rfl, -, hfails, herror⟩
  · exact absurd ((of_run_eq_ok hok).2.2.2.apart nodup fits) h
  · have hsafe : ¬Escapes e.path := (Route.inside_iff_not_escapes _).1 (fits e (by simp)).inside
    rcases (of_run_eq_error hfails).2.2 with ⟨he, -⟩ | ⟨-, source, -, rfl⟩
    · exact absurd he hsafe
    · exact ⟨source, u, herror⟩

end CommitMarking
