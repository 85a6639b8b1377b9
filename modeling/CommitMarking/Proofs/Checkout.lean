import CommitMarking.Proofs.FileSystem.Placing

namespace CommitMarking

/-- The path is empty, starts at the root, climbs somewhere or begins with the directory itself. -/
def Escapes (path : String) : Prop :=
  path = "" ∨ path.toList.head? = some '/' ∨ ['.', '.'] ∈ path.toList.splitOn '/' ∨
    (path.toList.splitOn '/').head? = some ['.']

namespace Route

theorem inside_iff (r : Route) :
    r.inside ↔ r.rooted = false ∧ r.steps ≠ [] ∧ r.steps.head? ≠ some "." ∧ ".." ∉ r.steps := by
  simp [inside, and_assoc]

theorem climbs_iff (path : String) :
    ".." ∈ (ofText path).steps ↔ ['.', '.'] ∈ path.toList.splitOn '/' := by
  have hdots (piece : List Char) : String.ofList piece = ".." ↔ piece = ['.', '.'] :=
    String.ofList_inj
  simp [ofText, hdots]

theorem exists_head?_steps {path : String} {c : Char} {cs : List Char}
    (hp : path.toList = c :: cs) (hc : c ≠ '/') :
    ∃ piece, (path.toList.splitOn '/').head? = some piece ∧
      (ofText path).steps.head? = some (String.ofList piece) := by
  obtain ⟨piece, pieces, hs⟩ := List.exists_cons_of_ne_nil (List.splitOn_ne_nil '/' cs)
  have hsplit : path.toList.splitOn '/' = (c :: piece) :: pieces := by
    rw [hp, List.splitOn_cons_eq_if_modifyHead, if_neg (by simpa using hc), hs,
      List.modifyHead_cons]
  exact ⟨c :: piece, by rw [hsplit, List.head?_cons], by simp [ofText, hsplit]⟩

theorem inside_iff_not_escapes (path : String) : (ofText path).inside ↔ ¬Escapes path := by
  have hempty : path = "" ↔ path.toList = [] := by
    rw [← String.toList_inj]
    rfl
  rw [inside_iff, climbs_iff, Escapes, hempty]
  cases hp : path.toList with
  | nil => simp [ofText, hp]
  | cons c cs =>
      by_cases hc : c = '/'
      · simp [ofText, hp, hc]
      · obtain ⟨piece, hs, hsteps⟩ := exists_head?_steps hp hc
        have hdot : String.ofList piece = "." ↔ piece = ['.'] := String.ofList_inj
        have hrooted : (ofText path).rooted = false := by simp [ofText, hp, hc]
        have hne : (ofText path).steps ≠ [] := fun he => by simp [he] at hsteps
        rw [hp] at hs
        simp [hrooted, hne, hsteps, hs, hdot, hc, and_comm]

end Route

namespace Entry

def names (e : Entry) : List String := (Route.ofText e.path).names

def writtenTo (dir : Location) (files : Location → Option Bytes) (e : Entry) :
    Location → Option Bytes :=
  Function.update files (dir ++ e.names) (some e.after)

def target (dir : Location) (e : Entry) : String := dir.join e.path

end Entry

variable {dir : Location} {e : Entry}

theorem run_checkoutEntry_of_escapes (h : Escapes e.path) (w : World) :
    (checkoutEntry dir e).run w = (.error (.unsafePath e.path), w) := by
  have hi : ¬(Route.ofText e.path).inside := fun hi => (Route.inside_iff_not_escapes _).1 hi h
  rw [checkoutEntry, if_neg hi, Act.run_throw]

theorem run_checkoutEntry (h : ¬Escapes e.path) (w : World) :
    (checkoutEntry dir e).run w =
      (match (w.files.place dir e.path e.after).1 with
        | .ok _ => .ok (e.target dir)
        | .error source => .error (.io source),
       { w with files := (w.files.place dir e.path e.after).2 }) := by
  rw [checkoutEntry, if_pos ((Route.inside_iff_not_escapes _).2 h), Act.run_bind, Act.run_mapError,
    Act.run_onFiles]
  cases (w.files.place dir e.path e.after).1 <;> rfl

theorem placed_of_not_escapes (dir : Location) (h : ¬Escapes e.path) (t : FileTree) :
    FileTree.Placed dir e.names e.after t (t.place dir e.path e.after).1
      (t.place dir e.path e.after).2 :=
  FileTree.placed_place ((Route.inside_iff_not_escapes _).2 h) t dir e.after

theorem Act.run_mapM_cons {ε α β : Type} (f : α → Act ε β) (a : α) (as : List α) (w : World) :
    ((a :: as).mapM f).run w =
      match (f a).run w with
      | (.error x, v) => (.error x, v)
      | (.ok b, v) => (((as.mapM f).run v).1.map (b :: ·), ((as.mapM f).run v).2) := by
  rw [List.mapM_cons, Act.run_bind]
  rcases (f a).run w with ⟨x | b, v⟩
  · rfl
  · dsimp only
    rw [Act.run_bind]
    rcases (as.mapM f).run v with ⟨x | bs, u⟩ <;> rfl

theorem Act.run_mapM_cases {ε α β : Type} (f : α → Act ε β) (as : List α) (w : World) :
    (∃ bs v, (as.mapM f).run w = (.ok bs, v)) ∨
      ∃ done a rest bs v x u, as = done ++ a :: rest ∧ (done.mapM f).run w = (.ok bs, v) ∧
        (f a).run v = (.error x, u) ∧ (as.mapM f).run w = (.error x, u) := by
  induction as generalizing w with
  | nil => exact .inl ⟨[], w, rfl⟩
  | cons a as ih =>
      rw [Act.run_mapM_cons]
      rcases ha : (f a).run w with ⟨x | b, v⟩
      · exact .inr ⟨[], a, as, [], w, x, v, rfl, rfl, ha, rfl⟩
      dsimp only
      rcases ih v with ⟨bs, u, h⟩ | ⟨done, c, rest, bs, u, x, t, rfl, hdone, hc, h⟩
      · exact .inl ⟨b :: bs, u, by rw [h]; rfl⟩
      · refine .inr ⟨a :: done, c, rest, b :: bs, u, x, t, rfl, ?_, hc, by rw [h]; rfl⟩
        rw [Act.run_mapM_cons, ha]
        dsimp only
        rw [hdone]
        rfl

theorem exists_eq_append_of_ne_run (dir : Location) (entries : List Entry) {w : World} {m : Location}
    (h : ((entries.mapM (checkoutEntry dir)).run w).2.files.find? m ≠ w.files.find? m) :
    ∃ steps, steps ≠ [] ∧ m = dir ++ steps := by
  induction entries generalizing w with
  | nil => exact absurd rfl h
  | cons e es ih =>
      rw [Act.run_mapM_cons] at h
      by_cases he : Escapes e.path
      · rw [run_checkoutEntry_of_escapes he] at h
        exact absurd rfl h
      · rw [run_checkoutEntry he] at h
        have hplaced := placed_of_not_escapes dir he w.files
        generalize w.files.place dir e.path e.after = placed at h hplaced
        rcases placed with ⟨source | _, u⟩
        · exact hplaced.exists_eq_append_of_ne h
        · by_cases hu : u.find? m = w.files.find? m
          · exact ih (w := { w with files := u }) (hu.symm ▸ h)
          · exact hplaced.exists_eq_append_of_ne hu

inductive AllPlaced (dir : Location) : List Entry → FileTree → FileTree → Prop
  | nil (t : FileTree) : AllPlaced dir [] t t
  | cons {e : Entry} {es : List Entry} {t u v : FileTree}
      (placed : FileTree.Placed dir e.names e.after t (.ok ()) u) (rest : AllPlaced dir es u v) :
      AllPlaced dir (e :: es) t v

theorem AllPlaced.content?_eq {entries : List Entry} {t v : FileTree}
    (h : AllPlaced dir entries t v) :
    v.content? = entries.foldl (Entry.writtenTo dir) t.content? := by
  induction h with
  | nil => rfl
  | cons placed _ ih =>
      rw [ih, List.foldl_cons, placed.content?_ok]
      rfl

theorem of_run_eq_ok {entries : List Entry} {w v : World} {written : List String}
    (h : (entries.mapM (checkoutEntry dir)).run w = (.ok written, v)) :
    (∀ e ∈ entries, ¬Escapes e.path) ∧ written = entries.map (·.target dir) ∧
      v = { w with files := v.files } ∧ AllPlaced dir entries w.files v.files := by
  induction entries generalizing w written with
  | nil =>
      cases h
      exact ⟨by simp, rfl, rfl, .nil _⟩
  | cons e es ih =>
      rw [Act.run_mapM_cons] at h
      by_cases he : Escapes e.path
      · rw [run_checkoutEntry_of_escapes he] at h
        cases h
      rw [run_checkoutEntry he] at h
      have hplaced := placed_of_not_escapes dir he w.files
      generalize w.files.place dir e.path e.after = placed at h hplaced
      rcases placed with ⟨source | _, u⟩
      · cases h
      dsimp only at h
      rcases hrest : (es.mapM (checkoutEntry dir)).run { w with files := u } with ⟨x | paths, v'⟩
      · rw [hrest] at h
        cases h
      · rw [hrest] at h
        cases h
        obtain ⟨hsafe, rfl, hw, hall⟩ := ih hrest
        exact ⟨List.forall_mem_cons.2 ⟨he, hsafe⟩, rfl, hw, .cons hplaced hall⟩

theorem of_run_eq_error {w v : World} {x : ProcessError}
    (h : (checkoutEntry dir e).run w = (.error x, v)) :
    v = { w with files := v.files } ∧ v.files.content? = w.files.content? ∧
      (Escapes e.path ∧ x = .unsafePath e.path ∨
        ¬Escapes e.path ∧ ∃ source, (w.files.place dir e.path e.after).1 = .error source ∧
          x = .io source) := by
  by_cases he : Escapes e.path
  · rw [run_checkoutEntry_of_escapes he] at h
    cases h
    exact ⟨rfl, rfl, .inl ⟨he, rfl⟩⟩
  · rw [run_checkoutEntry he] at h
    have hplaced := placed_of_not_escapes dir he w.files
    generalize w.files.place dir e.path e.after = placed at h hplaced ⊢
    rcases placed with ⟨source | _, t⟩ <;> cases h
    exact ⟨rfl, hplaced.content?_error, .inr ⟨he, source, rfl, rfl⟩⟩

/-- Checking out never leaves the work directory. The entries that are kept are written in their
order; the first one whose path escapes or which cannot be written ends it, and then the regular
files are those that the entries before it leave. -/
theorem checkout_contained (dir : Location) (keep : Entry → Bool) (entries : List Entry)
    (w : World) :
    let kept := entries.filter fun e => !e.isDeletion && keep e
    let run := (checkout dir keep entries).run w
    (∀ l, run.2.files.find? l ≠ w.files.find? l → ∃ steps, steps ≠ [] ∧ l = dir ++ steps) ∧
    (run.2.calls = w.calls ∧ run.2.trace = w.trace) ∧
    ∃ done rest t, kept = done ++ rest ∧ (∀ e ∈ done, ¬Escapes e.path) ∧
      (done.mapM (checkoutEntry dir)).run w = (.ok (done.map (·.target dir)), { w with files := t }) ∧
      run.2.files.content? = t.content? ∧
      t.content? = done.foldl (Entry.writtenTo dir) w.files.content? ∧
      match rest with
      | [] => run.1 = .ok (done.map (·.target dir))
      | e :: _ =>
          Escapes e.path ∧ run.1 = .error (.unsafePath e.path) ∨
          ¬Escapes e.path ∧ ∃ source, (t.place dir e.path e.after).1 = .error source ∧
            run.1 = .error (.io source) := by
  intro kept run
  have hframe (l : Location) := exists_eq_append_of_ne_run dir kept (w := w) (m := l)
  rcases Act.run_mapM_cases (checkoutEntry dir) kept w with
    ⟨written, v, hok⟩ | ⟨done, e, rest, written, v, x, u, hk, hdone, hfails, herror⟩
  · obtain ⟨hsafe, rfl, hv, hall⟩ := of_run_eq_ok hok
    have hrun : run = (.ok (kept.map (·.target dir)), v) := hok
    rw [hv] at hok
    rw [hrun]
    refine ⟨fun l hl => hframe l (by rwa [hok]), ?_, kept, [], v.files, by simp, hsafe, hok, rfl,
      hall.content?_eq, rfl⟩
    rw [hv]
    exact ⟨rfl, rfl⟩
  · obtain ⟨hsafe, rfl, hv, hall⟩ := of_run_eq_ok hdone
    obtain ⟨hu, hcontent, herrors⟩ := of_run_eq_error hfails
    have hrun : run = (.error x, u) := herror
    rw [hrun]
    refine ⟨fun l hl => hframe l (by rwa [herror]), ?_, done, e :: rest, v.files, hk, hsafe,
      by rwa [hv] at hdone, hcontent, hall.content?_eq, ?_⟩
    · rw [hu, hv]
      exact ⟨rfl, rfl⟩
    · rcases herrors with ⟨he, rfl⟩ | ⟨he, source, hs, rfl⟩
      · exact .inl ⟨he, rfl⟩
      · exact .inr ⟨he, source, hs, rfl⟩

end CommitMarking
