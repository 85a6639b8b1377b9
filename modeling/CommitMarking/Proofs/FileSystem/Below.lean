import CommitMarking.Checkout

namespace CommitMarking.FileTree

variable {t u : FileTree} {dir l base : Location}

theorem remove_put (h : dir <+: l) (t : FileTree) (n : Node) :
    (t.put l n).remove dir = t.remove dir := by
  rcases t with ⟨entries⟩
  rw [put, remove, remove, FileTree.mk.injEq]
  have hl : dir.isPrefixOf l = true := List.isPrefixOf_iff_prefix.2 h
  induction entries with
  | nil => simp [putEntry, hl]
  | cons e es ih =>
      rw [putEntry]
      split
      next he => simp [he, hl]
      next he => rw [List.filter_cons, List.filter_cons, ih]

theorem remove_remove (h : dir <+: l) (t : FileTree) : (t.remove l).remove dir = t.remove dir := by
  rw [remove, remove, remove, FileTree.mk.injEq, List.filter_filter]
  refine List.filter_congr fun e _ => ?_
  cases hl : l.isPrefixOf e.1 with
  | false => simp
  | true =>
      have hdir : dir.isPrefixOf e.1 = true :=
        List.isPrefixOf_iff_prefix.2 (h.trans (List.isPrefixOf_iff_prefix.1 hl))
      simp [hdir]

/-- Nothing stands below a name that is not taken, so all that comes to stand there can be taken
away again. -/
theorem remove_of_not_mem_names {parent : Location} {name : String} (h : name ∉ t.names parent) :
    t.remove (parent ++ [name]) = t := by
  rcases t with ⟨entries⟩
  rw [remove, FileTree.mk.injEq, List.filter_eq_self]
  intro e he
  rw [Bool.not_eq_true', Bool.eq_false_iff]
  intro hp
  obtain ⟨rest, hr⟩ := List.isPrefixOf_iff_prefix.1 hp
  refine h (List.mem_filterMap.2 ⟨e, he, ?_⟩)
  have hpre : parent.isPrefixOf e.1 = true :=
    List.isPrefixOf_iff_prefix.2 ⟨name :: rest, by rw [← hr, List.append_assoc]; rfl⟩
  rw [if_pos hpre, ← hr, List.append_assoc]
  simp

theorem enter_eq {step : String} (hs : step ≠ "..") (h : t.enter base step = .ok l) :
    l = if step = "." then base else base ++ [step] := by
  unfold enter at h
  cases hd : t.directory? base with
  | error e => rw [hd] at h; cases h
  | ok l' =>
      obtain rfl := directory?_ok hd
      rw [hd] at h
      simp only [bind, Except.bind, if_neg hs] at h
      split at h
      next hdot => cases h; rw [if_pos hdot]
      next hdot =>
          rw [if_neg hdot]
          split at h
          next => cases h
          next => split at h <;> cases h; rfl

theorem walk_eq {steps : List String} (hs : ".." ∉ steps) (h : t.walk base steps = .ok l) :
    l = base ++ steps.filter (· ≠ ".") := by
  induction steps generalizing base with
  | nil => cases h; simp
  | cons step steps ih =>
      rw [walk, List.foldlM_cons] at h
      rw [List.mem_cons, not_or] at hs
      cases he : t.enter base step with
      | error e => rw [he] at h; cases h
      | ok l' =>
          rw [he] at h
          rw [ih hs.2 h, enter_eq (Ne.symm hs.1) he]
          by_cases hdot : step = "." <;> simp [hdot]

theorem remove_makeDirectories (h : dir <+: base) (t : FileTree) (names : List String) :
    (t.makeDirectories base names).2.remove dir = t.remove dir := by
  induction names generalizing base t with
  | nil => rfl
  | cons name names ih =>
      have hn : dir <+: base ++ [name] := h.trans (List.prefix_append _ _)
      rw [makeDirectories]
      split
      next => exact ih hn t
      next => rfl
      next =>
          split
          next => rfl
          next => rw [ih hn, remove_put hn]

theorem exists_walk_of_write {path : String} {content : Bytes}
    (h : t.write base path content = .ok u) :
    ∃ l name, (Route.ofText path).steps.getLast? = some name ∧ name ≠ "." ∧
      t.walk (origin base path) (Route.ofText path).steps.dropLast = .ok l ∧
      t.find? (l ++ [name]) ≠ some .directory ∧ u = t.put (l ++ [name]) (.file content) := by
  unfold write at h
  simp only [bind, Except.bind] at h
  split at h
  next => cases h
  next =>
      split at h
      next => cases h
      next name hname =>
          cases hw : t.walk (origin base path) (Route.ofText path).steps.dropLast with
          | error e => rw [hw] at h; cases h
          | ok l =>
              simp only [hw] at h
              cases hd : t.directory? l with
              | error e => rw [hd] at h; cases h
              | ok l' =>
                  obtain rfl := directory?_ok hd
                  simp only [hd] at h
                  split at h
                  next => cases h
                  next hend =>
                      split at h
                      next => cases h
                      next =>
                          split at h
                          next => cases h
                          next hfree =>
                              cases h
                              exact ⟨_, name, hname, fun hdot => hend (.inl hdot), rfl, hfree, rfl⟩

theorem inside_steps {path : String} (hi : (Route.ofText path).inside = true) :
    (Route.ofText path).rooted = false ∧ ".." ∉ (Route.ofText path).steps := by
  simp only [Route.inside, Bool.and_eq_true, Bool.not_eq_true'] at hi
  obtain ⟨⟨⟨hr, -⟩, -⟩, hc⟩ := hi
  exact ⟨hr, by simpa using hc⟩

/-- A file that is written below `dir` comes to stand where the names on its path lead. -/
theorem exists_put_of_write {path : String} {content : Bytes}
    (hi : (Route.ofText path).inside = true) (h : t.write dir path content = .ok u) :
    (Route.ofText path).names ≠ [] ∧ t.find? (dir ++ (Route.ofText path).names) ≠ some .directory ∧
      u = t.put (dir ++ (Route.ofText path).names) (.file content) := by
  obtain ⟨hr, hs⟩ := inside_steps hi
  obtain ⟨l, name, hlast, hdot, hw, hfree, rfl⟩ := exists_walk_of_write h
  obtain ⟨front, hsteps⟩ := List.getLast?_eq_some_iff.1 hlast
  have ho : origin dir path = dir := by rw [origin, hr]; rfl
  have hnames : (Route.ofText path).names = front.filter (· ≠ ".") ++ [name] := by
    simp [Route.names, hsteps, hdot]
  rw [ho, hsteps, List.dropLast_concat] at hw
  have hl := walk_eq (fun hm => hs (by simp [hsteps, hm])) hw
  rw [hl, List.append_assoc, ← hnames] at hfree ⊢
  exact ⟨by simp [hnames], hfree, rfl⟩

theorem remove_write {path : String} {content : Bytes} (hi : (Route.ofText path).inside = true)
    (h : t.write dir path content = .ok u) : u.remove dir = t.remove dir := by
  obtain ⟨-, -, rfl⟩ := exists_put_of_write hi h
  exact remove_put (List.prefix_append _ _) t _

theorem remove_store {path : String} (hi : (Route.ofText path).inside = true) (t : FileTree)
    (content : Bytes) : (t.store dir path content).2.remove dir = t.remove dir := by
  unfold store
  cases hw : t.write dir path content with
  | error e => rfl
  | ok u => exact remove_write hi hw

theorem remove_makeParents (t : FileTree) (dir : Location) (path : String) :
    (t.makeParents dir path).2.remove dir = t.remove dir := by
  unfold makeParents
  generalize screen _ = screened
  cases screened with
  | error e => rfl
  | ok _ => exact remove_makeDirectories (List.prefix_refl dir) t _

/-- Placing a file changes nothing outside of the directory that it is placed below. -/
theorem remove_place {path : String} (hi : (Route.ofText path).inside = true) (t : FileTree)
    (content : Bytes) : (t.place dir path content).2.remove dir = t.remove dir := by
  have hm := remove_makeParents t dir path
  unfold place
  generalize t.makeParents dir path = made at hm
  rcases made with ⟨e | _, v⟩
  · exact hm
  · exact (remove_store hi v content).trans hm

end CommitMarking.FileTree
