import CommitMarking.Proofs.Checkout.Completion

namespace CommitMarking

def segments (path : String) : List String := (path.toList.splitOn '/').map String.ofList

def Above (p q : String) : Prop := (p ++ "/").toList <+: q.toList

instance (p q : String) : Decidable (Above p q) :=
  inferInstanceAs (Decidable ((p ++ "/").toList <+: q.toList))

def keptBy (keep : Entry → Bool) (entries : List Entry) : List Entry :=
  entries.filter fun e => !e.isDeletion && keep e

/-- One of the entries is to be written where another one needs a directory. -/
def Clash (kept : List Entry) : Prop := ∃ d ∈ kept, ∃ e ∈ kept, Above d.path e.path

instance : DecidablePred Clash := fun kept =>
  inferInstanceAs (Decidable (∃ d ∈ kept, ∃ e ∈ kept, Above d.path e.path))

/-- What stands below `dir` are the files of the entries and the directories on the way to them. -/
structure Filled (dir : Location) (kept : List Entry) (t : FileTree) : Prop where
  root : t.find? dir = some .directory
  file : ∀ steps content, t.find? (dir ++ steps) = some (.file content) ↔
    ∃ e ∈ kept, segments e.path = steps ∧ e.after = content
  directory : ∀ steps, steps ≠ [] → (t.find? (dir ++ steps) = some .directory ↔
    ∃ e ∈ kept, ∃ rest, rest ≠ [] ∧ segments e.path = steps ++ rest)

theorem intercalate_segments (path : String) : "/".intercalate (segments path) = path := by
  refine String.toList_inj.1 ?_
  rw [String.toList_intercalate, segments, List.map_map]
  simp [Function.comp_def, List.intercalate_splitOn]

theorem above_iff {p q : String} :
    Above p q ↔ ∃ rest, rest ≠ [] ∧ segments q = segments p ++ rest := by
  constructor
  · rintro ⟨rest, hr⟩
    have hq : q.toList = p.toList ++ '/' :: rest := by
      rw [← hr, String.toList_append, List.append_assoc]
      rfl
    refine ⟨(rest.splitOn '/').map String.ofList, by simp, ?_⟩
    rw [segments, hq, List.splitOn_append_cons_self, List.map_append, segments]
  · rintro ⟨rest, hne, hq⟩
    have hp : segments p ≠ [] := by simp [segments]
    refine ⟨("/".intercalate rest).toList, ?_⟩
    rw [← String.toList_append, ← intercalate_segments q, hq,
      String.intercalate_append_of_ne_nil hp hne, intercalate_segments]

theorem exists_rest_iff {steps way : List String} :
    (∃ rest, rest ≠ [] ∧ way = steps ++ rest) ↔ steps <+: way ∧ steps ≠ way := by
  constructor
  · rintro ⟨rest, hne, rfl⟩
    exact ⟨List.prefix_append _ _, fun he => hne (List.self_eq_append_right.1 he)⟩
  · rintro ⟨⟨rest, rfl⟩, hne⟩
    exact ⟨rest, fun hr => hne (List.self_eq_append_right.2 hr), rfl⟩

variable {dir : Location} {t u : FileTree} {kept order : List Entry}

namespace Fits

variable {p q : String}

theorem names_eq_segments (h : Fits dir p) : (Route.ofText p).names = segments p :=
  h.names_eq.trans h.steps_eq

theorem above_iff (hp : Fits dir p) (hq : Fits dir q) :
    Above p q ↔ (Route.ofText p).names <+: (Route.ofText q).names ∧
      (Route.ofText p).names ≠ (Route.ofText q).names := by
  rw [CommitMarking.above_iff, exists_rest_iff, hp.names_eq_segments, hq.names_eq_segments]

end Fits

namespace Filled

theorem perm (h : Filled dir kept t) (hp : kept.Perm order) : Filled dir order t where
  root := h.root
  file steps content := by simp only [h.file, hp.mem_iff]
  directory steps hs := by simp only [h.directory steps hs, hp.mem_iff]

theorem find?_eq (h : Filled dir kept t) (ho : Filled dir kept u) (steps : List String) :
    t.find? (dir ++ steps) = u.find? (dir ++ steps) := by
  refine Option.ext fun n => ?_
  cases n with
  | directory =>
      by_cases hs : steps = []
      · rw [hs, List.append_nil, h.root, ho.root]
      · rw [h.directory steps hs, ho.directory steps hs]
  | file content => rw [h.file, ho.file]

end Filled

section Distinct

variable (fits : ∀ e ∈ kept, Fits dir e.path)

include fits

theorem apart_iff_not_clash : Apart (kept.map Entry.names) ↔ ¬Clash kept := by
  simp only [Apart, Clash, List.forall_mem_map, not_exists, not_and]
  refine forall₂_congr fun d hd => forall₂_congr fun e he => ?_
  rw [(fits d hd).above_iff (fits e he), not_and, not_not]
  rfl

variable (distinct : (kept.map (·.path)).Nodup)

include distinct

theorem AllPlaced.filled (h : AllPlaced dir kept t u) (vacant : Vacant dir t) :
    Filled dir kept u := by
  have hfills : Fills dir (kept.map Entry.names) u :=
    (vacant.fills _).allPlaced h fun e he => List.mem_map_of_mem he
  have hnames : ∀ e ∈ kept, e.names = segments e.path := fun e he => (fits e he).names_eq_segments
  refine ⟨h.find?_directory vacant.root, fun steps content => ?_, fun steps hs => ?_⟩
  · rw [← FileTree.content?_eq_some, h.content?_eq_some_iff (nodup_names fits distinct) vacant]
    exact exists_congr fun e => and_congr_right fun he => by rw [hnames e he]
  · simp only [exists_rest_iff]
    constructor
    · intro hd
      obtain ⟨way, hw, hway⟩ := hfills.directory steps hs hd
      obtain ⟨e, he, rfl⟩ := List.mem_map.1 hw
      exact ⟨e, he, hnames e he ▸ hway⟩
    · rintro ⟨e, he, hway⟩
      rw [← hnames e he] at hway
      obtain ⟨rest, hne, hrest⟩ := exists_rest_iff.2 hway
      refine h.directory_of_mem he hs ?_
      rw [hrest, List.dropLast_append_of_ne_nil hne]
      exact List.prefix_append _ _

theorem run_kept {w : World} (vacant : Vacant dir w.files) :
    let run := (kept.mapM (checkoutEntry dir)).run w
    (Clash kept → ∃ source, run.1 = .error (.io source)) ∧
      (¬Clash kept → run.1 = .ok (kept.map (·.target dir)) ∧ Filled dir kept run.2.files) := by
  intro run
  constructor
  · intro hclash
    obtain ⟨source, v, hrun⟩ := exists_run_eq_io (w := w) fits (nodup_names fits distinct)
      fun hapart => (apart_iff_not_clash fits).1 hapart hclash
    exact ⟨source, congrArg Prod.fst hrun⟩
  · intro hclear
    obtain ⟨v, hrun⟩ := exists_run_eq_ok ((apart_iff_not_clash fits).2 hclear) (vacant.fills _) fits
      fun e he => List.mem_map_of_mem he
    have hplaced := (of_run_eq_ok hrun).2.2.2
    have hrun : run = _ := hrun
    rw [hrun]
    exact ⟨rfl, hplaced.filled fits distinct vacant⟩

end Distinct

/-- Checking out into an empty directory writes what is to be kept and nothing else: its files, each
with its new content, and the directories on the way to them. Which order the entries are in shows
only in that of the paths answered. Where one of the files would have to be a directory of another
one, no order of the entries can be checked out. -/
theorem checkout_writes_kept {keep : Entry → Bool} {entries : List Entry} {w : World}
    (vacant : Vacant dir w.files) (fits : ∀ e ∈ keptBy keep entries, Fits dir e.path)
    (distinct : ((keptBy keep entries).map (·.path)).Nodup) :
    (Clash (keptBy keep entries) → ∀ order, order.Perm entries →
      ∃ source, ((checkout dir keep order).run w).1 = .error (.io source)) ∧
    (¬Clash (keptBy keep entries) → ∀ order, order.Perm entries →
      let run := (checkout dir keep order).run w
      run.1 = .ok ((keptBy keep order).map fun e => dir.join e.path) ∧
      Filled dir (keptBy keep entries) run.2.files ∧
      run.2.files.find? = ((checkout dir keep entries).run w).2.files.find?) := by
  have hkept {order : List Entry} (ho : order.Perm entries) :
      (keptBy keep order).Perm (keptBy keep entries) := ho.filter _
  have hrun {order : List Entry} (ho : order.Perm entries) :=
    run_kept (fun e he => fits e ((hkept ho).mem_iff.1 he))
      (((hkept ho).map _).nodup_iff.2 distinct) vacant
  have hclash {order : List Entry} (ho : order.Perm entries) :
      Clash (keptBy keep order) ↔ Clash (keptBy keep entries) := by
    simp only [Clash, (hkept ho).mem_iff]
  constructor
  · exact fun hc order ho => (hrun ho).1 ((hclash ho).2 hc)
  · intro hclear order ho run
    obtain ⟨hok, hfilled⟩ := (hrun ho).2 fun hc => hclear ((hclash ho).1 hc)
    obtain ⟨-, hentries⟩ := (hrun (List.Perm.refl entries)).2 hclear
    refine ⟨hok, hfilled.perm (hkept ho), funext fun l => ?_⟩
    by_cases hl : ∃ steps, l = dir ++ steps
    · obtain ⟨steps, rfl⟩ := hl
      exact (hfilled.perm (hkept ho)).find?_eq hentries steps
    · -- what is not below the directory is in both trees as it was
      have hframe (es : List Entry) :
          ((es.mapM (checkoutEntry dir)).run w).2.files.find? l = w.files.find? l := by
        refine Decidable.byContradiction fun hne => hl ?_
        obtain ⟨steps, -, hm⟩ := exists_eq_append_of_ne_run dir es hne
        exact ⟨steps, hm⟩
      exact (hframe _).trans (hframe _).symm

/-- A file is deleted where a directory comes to be, and another one is not accepted. If there is a
file in the place of the directory, it comes too late at the end. -/
theorem checkout_writes_kept_reversed :
    let keep (e : Entry) : Bool := e.path ≠ "docs/b.md"
    let entries : List Entry := [⟨"docs", [1], []⟩, ⟨"docs/a/x", [], [2]⟩, ⟨"docs/b.md", [], [3]⟩,
      ⟨"docs/y", [], []⟩]
    let blocked : List Entry := ⟨"docs", [1], [4]⟩ :: entries
    let w : World := .fresh ⟨[(["work"], .directory)]⟩
    Vacant ["work"] w.files ∧
    (∀ es ∈ [entries, blocked], (∀ e ∈ keptBy keep es, Fits ["work"] e.path) ∧
      ((keptBy keep es).map (·.path)).Nodup) ∧
    (∃ v, (checkout ["work"] keep entries.reverse).run w =
        (.ok ["/work/docs/y", "/work/docs/a/x"], v) ∧
      v.files.find? ["work", "docs", "a", "x"] = some (.file [2])) ∧
    ∃ source, ((checkout ["work"] keep blocked.reverse).run w).1 = .error (.io source) := by
  intro keep entries blocked w
  have vacant : Vacant ["work"] w.files :=
    ⟨rfl, fun steps hs => by simp [w, World.fresh, FileTree.find?, hs]⟩
  have hkept : ∀ es ∈ [entries, blocked], (∀ e ∈ keptBy keep es, Fits ["work"] e.path) ∧
      ((keptBy keep es).map (·.path)).Nodup := by decide +kernel
  obtain ⟨-, hwritten⟩ := checkout_writes_kept vacant (hkept entries (by simp)).1
    (hkept entries (by simp)).2
  obtain ⟨hblocked, -⟩ := checkout_writes_kept vacant (hkept blocked (by simp)).1
    (hkept blocked (by simp)).2
  obtain ⟨hok, hfilled, -⟩ := hwritten (by decide +kernel) entries.reverse (List.reverse_perm _)
  have hpaths : (keptBy keep entries.reverse).map (fun e => Location.join ["work"] e.path) =
      ["/work/docs/y", "/work/docs/a/x"] := by
    decide +kernel
  have hentry : ∃ e ∈ keptBy keep entries,
      segments e.path = ["docs", "a", "x"] ∧ e.after = [2] := by decide +kernel
  refine ⟨vacant, hkept, ?_, hblocked (by decide +kernel) blocked.reverse (List.reverse_perm _)⟩
  rw [hpaths] at hok
  have hfile := (hfilled.file ["docs", "a", "x"] [2]).2 hentry
  generalize (checkout ["work"] keep entries.reverse).run w = run at hok hfile ⊢
  exact ⟨run.2, Prod.ext hok rfl, hfile⟩

end CommitMarking
