import CommitMarking.Proofs.FileSystem.Placing

namespace CommitMarking

/-- Two ways to end that are one error, or two values that go together. -/
inductive Agree {ε α β : Type} (p : α → β → Prop) : Except ε α → Except ε β → Prop
  | ok {a : α} {b : β} (h : p a b) : Agree p (.ok a) (.ok b)
  | error (e : ε) : Agree p (.error e) (.error e)

theorem Agree.bind {ε α β α' β' : Type} {p : α → β → Prop} {q : α' → β' → Prop} {x : Except ε α}
    {y : Except ε β} {f : α → Except ε α'} {g : β → Except ε β'} (h : Agree p x y)
    (hn : ∀ a b, p a b → Agree q (f a) (g b)) : Agree q (x >>= f) (y >>= g) := by
  cases h with
  | ok h => exact hn _ _ h
  | error e => exact .error e

theorem byteLength_append (s t : String) : byteLength (s ++ t) = byteLength s + byteLength t := by
  rw [byteLength, byteLength, byteLength, Text.Utf8.encode, Text.Utf8.encode, Text.Utf8.encode,
    String.toList_append, List.flatMap_append, List.length_append]

theorem hasNul_append (s t : String) : hasNul (s ++ t) = (hasNul s || hasNul t) := by
  simp [hasNul, String.toList_append]

structure Location.Level (dir dir' : Location) : Prop where
  ne_nil : dir ≠ []
  ne_nil' : dir' ≠ []
  byteLength_eq : byteLength dir.text = byteLength dir'.text
  hasNul_eq : hasNul dir.text = hasNul dir'.text

theorem Location.Level.screen_join {dir dir' : Location} (h : dir.Level dir') (path : String) :
    FileTree.screen (dir.join path) = FileTree.screen (dir'.join path) := by
  cases hr : (Route.ofText path).rooted with
  | true => rw [Location.join, Location.join, if_pos hr, if_pos hr]
  | false =>
      have hlength : pathTooLong (dir.text ++ "/" ++ path) = pathTooLong (dir'.text ++ "/" ++ path) := by
        simp only [pathTooLong, byteLength_append, h.byteLength_eq]
      have hnul : hasNul (dir.text ++ "/" ++ path) = hasNul (dir'.text ++ "/" ++ path) := by
        simp only [hasNul_append, h.hasNul_eq]
      rw [Location.join_of_ne_nil h.ne_nil hr, Location.join_of_ne_nil h.ne_nil' hr, FileTree.screen,
        FileTree.screen, hlength, hnul]

def Location.Moved (dir dir' l l' : Location) : Prop := ∃ names, l = dir ++ names ∧ l' = dir' ++ names

theorem Location.Moved.append {dir dir' l l' : Location} (h : Moved dir dir' l l')
    (names : Location) : Moved dir dir' (l ++ names) (l' ++ names) := by
  obtain ⟨front, rfl, rfl⟩ := h
  exact ⟨front ++ names, List.append_assoc .., List.append_assoc ..⟩

theorem Location.Moved.refl (dir dir' : Location) : Moved dir dir' dir dir' := ⟨[], by simp, by simp⟩

namespace FileTree

/-- What stands in the directory `l`, seen from there, with the entry of `l` itself. -/
def inside (t : FileTree) (l : Location) : List (Location × Node) :=
  t.entries.filterMap fun e => if l.isPrefixOf e.1 then some (e.1.drop l.length, e.2) else none

theorem lookup_inside (t : FileTree) (l names : Location) :
    (t.inside l).lookup names = t.entries.lookup (l ++ names) := by
  rcases t with ⟨entries⟩
  rw [inside]
  induction entries with
  | nil => rfl
  | cons e es ih =>
      rcases e with ⟨m, n⟩
      rw [lookup_cons]
      by_cases hp : l <+: m
      · obtain ⟨rest, rfl⟩ := hp
        rw [List.filterMap_cons_some (b := (rest, n)) (by simp), lookup_cons, ih]
        simp only [List.append_cancel_left_eq]
      · have hne : l ++ names ≠ m := fun h => hp ⟨names, h⟩
        rw [List.filterMap_cons_none (by simp [hp]), if_neg hne, ih]

theorem inside_put (t : FileTree) (l names : Location) (n : Node) :
    (t.put (l ++ names) n).inside l = putEntry names n (t.inside l) := by
  rcases t with ⟨entries⟩
  simp only [put, inside]
  induction entries with
  | nil => simp [putEntry]
  | cons e es ih =>
      rcases e with ⟨m, o⟩
      rw [putEntry]
      by_cases hp : l <+: m
      · obtain ⟨rest, rfl⟩ := hp
        rw [List.filterMap_cons_some (b := (rest, o)) (by simp), putEntry]
        by_cases hn : rest = names
        · simp [hn]
        · simp only [List.append_cancel_left_eq, hn, if_false]
          rw [List.filterMap_cons_some (b := (rest, o)) (by simp), ih]
      · have hne : m ≠ l ++ names := fun h => hp ⟨names, h.symm⟩
        rw [if_neg hne, List.filterMap_cons_none (by simp [hp]), List.filterMap_cons_none (by simp [hp]),
          ih]

theorem inside_put_directory {t : FileTree} {parent : Location} {name : String}
    (h : name ∉ t.names parent) :
    (t.put (parent ++ [name]) .directory).inside (parent ++ [name]) = [([], .directory)] := by
  have hempty : t.inside (parent ++ [name]) = [] := by
    rw [← remove_of_not_mem_names h, inside, remove, List.filterMap_filter, List.filterMap_eq_nil_iff]
    intro e _
    cases (parent ++ [name]).isPrefixOf e.1 <;> rfl
  have hput := inside_put t (parent ++ [name]) [] .directory
  rw [List.append_nil, hempty] at hput
  exact hput

theorem filesBelow_eq (t : FileTree) (l : Location) :
    t.filesBelow l =
      ((t.inside l).filterMap (fileBelow? [])).mergeSort fun a b => decide (a.1 ≤ b.1) := by
  rw [filesBelow, inside, List.filterMap_filterMap]
  congr 2
  funext ⟨m, n⟩
  cases n <;> by_cases hp : l.isPrefixOf m <;> simp [fileBelow?, hp]

section Twins

variable {t t' : FileTree} {dir dir' l l' : Location} (hd : dir.Level dir')
  (h : t.inside dir = t'.inside dir')
include hd h

theorem find?_of_inside_eq (hl : Location.Moved dir dir' l l') : t.find? l = t'.find? l' := by
  obtain ⟨names, rfl, rfl⟩ := hl
  rw [find?, find?, if_neg fun hn => hd.ne_nil (List.append_eq_nil_iff.1 hn).1,
    if_neg fun hn => hd.ne_nil' (List.append_eq_nil_iff.1 hn).1, ← lookup_inside, ← lookup_inside, h]

theorem directory?_agree (hl : Location.Moved dir dir' l l') :
    Agree (Location.Moved dir dir') (t.directory? l) (t'.directory? l') := by
  rw [directory?, directory?, find?_of_inside_eq hd h hl]
  split
  · exact .ok hl
  · exact .error _
  · exact .error _

theorem enter_agree {step : String} (hs : step ≠ "..") (hl : Location.Moved dir dir' l l') :
    Agree (Location.Moved dir dir') (t.enter l step) (t'.enter l' step) := by
  refine (directory?_agree hd h hl).bind fun m m' hm => ?_
  rw [if_neg hs, if_neg hs, find?_of_inside_eq hd h (hm.append [step])]
  split
  · exact .ok hm
  · split
    · exact .error _
    · split
      · exact .ok (hm.append [step])
      · exact .error _

/-- A walk that does not climb finds its way in both directories, or in neither. -/
theorem walk_agree {steps : List String} (hs : ".." ∉ steps) (hl : Location.Moved dir dir' l l') :
    Agree (Location.Moved dir dir') (t.walk l steps) (t'.walk l' steps) := by
  induction steps generalizing l l' with
  | nil => exact .ok hl
  | cons step steps ih =>
      rw [List.mem_cons, not_or] at hs
      rw [walk, walk, List.foldlM_cons, List.foldlM_cons]
      exact (enter_agree hd h (Ne.symm hs.1) hl).bind fun m m' hm => ih hs.2 hm

theorem exists?_of_inside_eq {path : String} (hi : (Route.ofText path).inside = true) :
    t.exists? dir path = t'.exists? dir' path := by
  obtain ⟨hr, hs⟩ := inside_steps hi
  have hlocated : Agree (Location.Moved dir dir') (t.locateBelow dir path)
      (t'.locateBelow dir' path) := by
    rw [locateBelow, locateBelow, hd.screen_join, follow, follow, origin, origin, hr]
    cases screen (dir'.join path) with
    | error e => exact .error e
    | ok _ =>
        refine (walk_agree hd h hs (.refl dir dir')).bind fun m m' hm => ?_
        split
        · exact directory?_agree hd h hm
        · exact .ok hm
  rw [exists?, exists?]
  generalize t.locateBelow dir path = located at hlocated
  generalize t'.locateBelow dir' path = located' at hlocated
  cases hlocated <;> rfl

omit hd in
theorem put_of_inside_eq (hl : Location.Moved dir dir' l l') (n : Node) :
    (t.put l n).inside dir = (t'.put l' n).inside dir' := by
  obtain ⟨names, rfl, rfl⟩ := hl
  rw [inside_put, inside_put, h]

theorem write_agree {path : String} (hi : (Route.ofText path).inside = true) (content : Bytes) :
    Agree (fun u u' => u.inside dir = u'.inside dir') (t.write dir path content)
      (t'.write dir' path content) := by
  obtain ⟨hr, hs⟩ := inside_steps hi
  rw [write, write, hd.screen_join, origin, origin, hr]
  cases screen (dir'.join path) with
  | error e => exact .error e
  | ok _ =>
      dsimp only [bind, Except.bind]
      cases hlast : (Route.ofText path).steps.getLast? with
      | none => exact .error _
      | some name =>
          have hfront : ".." ∉ (Route.ofText path).steps.dropLast := fun hm =>
            hs (List.dropLast_subset _ hm)
          refine (walk_agree hd h hfront (.refl dir dir')).bind fun l l' hl => ?_
          refine (directory?_agree hd h hl).bind fun m m' hm => ?_
          split
          · exact .error _
          · split
            · exact .error _
            · rw [find?_of_inside_eq hd h (hm.append [name])]
              rcases t'.find? (m' ++ [name]) with _ | _ | _
              · exact .ok (put_of_inside_eq h (hm.append [name]) _)
              · exact .error _
              · exact .ok (put_of_inside_eq h (hm.append [name]) _)

theorem makeDirectories_of_inside_eq (hl : Location.Moved dir dir' l l') (names : List String) :
    (t.makeDirectories l names).1 = (t'.makeDirectories l' names).1 ∧
      (t.makeDirectories l names).2.inside dir = (t'.makeDirectories l' names).2.inside dir' := by
  induction names generalizing t t' l l' with
  | nil => exact ⟨rfl, h⟩
  | cons name names ih =>
      have hname := hl.append [name]
      rw [makeDirectories, makeDirectories, find?_of_inside_eq hd h hname]
      rcases t'.find? (l' ++ [name]) with _ | _ | _
      · dsimp only
        split
        · exact ⟨rfl, h⟩
        · exact ih (put_of_inside_eq h hname _) hname
      · exact ih h hname
      · exact ⟨rfl, h⟩

theorem store_of_inside_eq {path : String} (hi : (Route.ofText path).inside = true)
    (content : Bytes) :
    (t.store dir path content).1 = (t'.store dir' path content).1 ∧
      (t.store dir path content).2.inside dir = (t'.store dir' path content).2.inside dir' := by
  have hwritten := write_agree hd h hi content
  unfold store
  generalize t.write dir path content = written at hwritten
  generalize t'.write dir' path content = written' at hwritten
  cases hwritten with
  | ok hu => exact ⟨rfl, hu⟩
  | error e => exact ⟨rfl, h⟩

theorem makeParents_of_inside_eq (path : String) :
    (t.makeParents dir path).1 = (t'.makeParents dir' path).1 ∧
      (t.makeParents dir path).2.inside dir = (t'.makeParents dir' path).2.inside dir' := by
  have hmade := makeDirectories_of_inside_eq hd h (.refl dir dir') (Route.ofText path).names.dropLast
  unfold makeParents
  rw [hd.screen_join]
  generalize screen (dir'.join (Route.parentText path)) = screened
  cases screened with
  | error e => exact ⟨rfl, h⟩
  | ok _ => exact hmade

/-- A file is placed below two directories with the same contents in the same way. -/
theorem place_of_inside_eq {path : String} (hi : (Route.ofText path).inside = true)
    (content : Bytes) :
    (t.place dir path content).1 = (t'.place dir' path content).1 ∧
      (t.place dir path content).2.inside dir = (t'.place dir' path content).2.inside dir' := by
  have hparents := makeParents_of_inside_eq hd h path
  unfold place
  generalize t.makeParents dir path = made at hparents
  generalize t'.makeParents dir' path = made' at hparents
  obtain ⟨result, u⟩ := made
  obtain ⟨result', u'⟩ := made'
  obtain ⟨rfl, hu⟩ := hparents
  cases result with
  | error e => exact ⟨rfl, hu⟩
  | ok _ => exact store_of_inside_eq hd hu hi content

end Twins

end FileTree

end CommitMarking
