import CommitMarking.Proofs.FileSystem.Placing

namespace CommitMarking

/-- A file below `dir` can have the path: it consists of names, and neither one of them nor the
whole is too long. -/
structure Fits (dir : Location) (path : String) : Prop where
  pieces : ∀ piece ∈ path.toList.splitOn '/', piece ≠ [] ∧ piece ≠ ['.'] ∧ piece ≠ ['.', '.']
  short : ∀ name ∈ (Route.ofText path).names, nameTooLong name = false
  nul : hasNul (dir.join path) = false
  length : pathTooLong (dir.join path) = false

instance (dir : Location) (path : String) : Decidable (Fits dir path) :=
  decidable_of_iff (_ ∧ _ ∧ _ ∧ _)
    ⟨fun ⟨pieces, short, nul, length⟩ => ⟨pieces, short, nul, length⟩,
      fun h => ⟨h.pieces, h.short, h.nul, h.length⟩⟩

namespace Fits

variable {dir : Location} {path other : String}

theorem screen_eq_ok (h : Fits dir path) : FileTree.screen (dir.join path) = .ok () := by
  simp [FileTree.screen, h.nul, h.length]

theorem steps_eq (h : Fits dir path) :
    (Route.ofText path).steps = (path.toList.splitOn '/').map String.ofList := by
  have hfilter : (path.toList.splitOn '/').filter (· ≠ []) = path.toList.splitOn '/' :=
    List.filter_eq_self.2 fun piece hp => by simpa using (h.pieces piece hp).1
  rw [Route.ofText]
  exact congrArg (List.map String.ofList) hfilter

theorem ne_dots (h : Fits dir path) :
    ∀ step ∈ (Route.ofText path).steps, step ≠ "." ∧ step ≠ ".." := by
  rw [h.steps_eq, List.forall_mem_map]
  intro piece hp
  have hdot : String.ofList piece = "." ↔ piece = ['.'] := String.ofList_inj
  have hdots : String.ofList piece = ".." ↔ piece = ['.', '.'] := String.ofList_inj
  rw [ne_eq, ne_eq, hdot, hdots]
  exact (h.pieces piece hp).2

theorem names_eq (h : Fits dir path) : (Route.ofText path).names = (Route.ofText path).steps :=
  List.filter_eq_self.2 fun step hs => by simpa using (h.ne_dots step hs).1

theorem steps_ne_nil (h : Fits dir path) : (Route.ofText path).steps ≠ [] := by
  rw [h.steps_eq]
  simp

theorem names_ne_nil (h : Fits dir path) : (Route.ofText path).names ≠ [] := by
  rw [h.names_eq]
  exact h.steps_ne_nil

theorem head?_ne (h : Fits dir path) : path.toList.head? ≠ some '/' := by
  intro hh
  obtain ⟨rest, hr⟩ := List.head?_eq_some_iff.1 hh
  have hm : [] ∈ path.toList.splitOn '/' := by
    rw [hr, ← List.nil_append ('/' :: rest), List.splitOn_append_cons_self]
    simp
  exact (h.pieces [] hm).1 rfl

theorem getLast?_ne (h : Fits dir path) : path.toList.getLast? ≠ some '/' := by
  intro hh
  obtain ⟨front, hf⟩ := List.getLast?_eq_some_iff.1 hh
  have hm : [] ∈ path.toList.splitOn '/' := by
    rw [hf, List.splitOn_append_cons_self]
    simp
  exact (h.pieces [] hm).1 rfl

theorem rooted_eq (h : Fits dir path) : (Route.ofText path).rooted = false :=
  decide_eq_false h.head?_ne

theorem slash_eq (h : Fits dir path) : (Route.ofText path).slash = false := by
  simp [Route.ofText, h.getLast?_ne]

theorem inside (h : Fits dir path) : (Route.ofText path).inside = true := by
  have hhead : (Route.ofText path).steps.head? ≠ some "." := fun hh =>
    (h.ne_dots _ (List.mem_of_head? hh)).1 rfl
  have hclimb : ".." ∉ (Route.ofText path).steps := fun hm => (h.ne_dots _ hm).2 rfl
  simp [Route.inside, h.rooted_eq, h.steps_ne_nil, hhead, hclimb]

theorem names_inj (h : Fits dir path) (ho : Fits dir other)
    (he : (Route.ofText path).names = (Route.ofText other).names) : path = other := by
  rw [h.names_eq, ho.names_eq, h.steps_eq, ho.steps_eq] at he
  have hpieces : path.toList.splitOn '/' = other.toList.splitOn '/' :=
    (List.map_inj_right fun _ _ => String.ofList_inj.1).1 he
  refine String.toList_inj.1 ?_
  calc path.toList = ['/'].intercalate (path.toList.splitOn '/') :=
        (List.intercalate_splitOn '/').symm
    _ = ['/'].intercalate (other.toList.splitOn '/') := by rw [hpieces]
    _ = other.toList := List.intercalate_splitOn '/'

end Fits

theorem Route.intercalate_isPrefix {front pieces : List (List Char)} (sep : List Char)
    (h : front <+: pieces) : sep.intercalate front <+: sep.intercalate pieces := by
  induction front generalizing pieces with
  | nil => exact List.nil_prefix
  | cons piece front ih =>
      obtain ⟨rest, rfl⟩ := h
      by_cases hr : front ++ rest = []
      · obtain ⟨rfl, rfl⟩ := List.append_eq_nil_iff.1 hr
        exact List.prefix_refl _
      · rw [List.cons_append, List.intercalate_cons_of_ne_nil hr]
        cases front with
        | nil => simp [List.intercalate]
        | cons p ps =>
            rw [List.intercalate_cons_of_ne_nil (List.cons_ne_nil p ps)]
            exact (List.prefix_append_right_inj _).2 (ih (List.prefix_append _ _))

theorem Route.parentText_isPrefix (path : String) :
    (parentText path).toList <+: path.toList := by
  have hpath : ['/'].intercalate (path.toList.splitOn '/') = path.toList :=
    List.intercalate_splitOn '/'
  rw [parentText, String.toList_ofList]
  generalize path.toList.splitOn '/' = pieces at hpath
  rw [← hpath]
  refine intercalate_isPrefix _ (List.reverse_suffix.1 ?_)
  rw [List.reverse_reverse]
  exact (List.dropWhile_suffix _).trans ((List.drop_suffix _ _).trans (List.dropWhile_suffix _))

namespace FileTree

theorem screen_of_isPrefix {path front : String} (hf : front.toList <+: path.toList)
    (h : screen path = .ok ()) : screen front = .ok () := by
  obtain ⟨rest, hr⟩ := hf
  have hlen : byteLength front ≤ byteLength path := by
    rw [byteLength, byteLength, Text.Utf8.encode, Text.Utf8.encode, ← hr, List.flatMap_append]
    simp
  have hnul : hasNul front = true → hasNul path = true := by
    simp only [hasNul, ← hr, List.contains_append, Bool.or_eq_true]
    exact .inl
  unfold screen at h ⊢
  grind [pathTooLong]

theorem screen_join_parentText {dir : Location} {path : String} (hr : path.toList.head? ≠ some '/')
    (h : screen (dir.join path) = .ok ()) :
    screen (dir.join (Route.parentText path)) = .ok () := by
  have hp := Route.parentText_isPrefix path
  have hparent : (Route.parentText path).toList.head? ≠ some '/' := by
    obtain ⟨rest, he⟩ := hp
    intro hh
    exact hr (by rw [← he, List.head?_append, hh]; rfl)
  have hjoin {p : String} (hp : p.toList.head? ≠ some '/') : dir.join p = (dir ++ [p]).text := by
    simp [Location.join, Route.ofText, hp]
  rw [hjoin hr] at h
  rw [hjoin hparent]
  refine screen_of_isPrefix ?_ h
  by_cases hd : dir = []
  · simpa [Location.text, hd] using hp
  · have htext (p : String) : (dir ++ [p]).text.toList =
        ("/" ++ "/".intercalate dir ++ "/").toList ++ p.toList := by
      rw [Location.text, String.intercalate_append_of_ne_nil hd (by simp)]
      simp
    rw [htext, htext]
    exact (List.prefix_append_right_inj _).2 hp

variable {t : FileTree} {dir l : Location}

theorem makeDirectories_eq_ok {names : List String}
    (free : ∀ steps, steps ≠ [] → steps <+: names → ∀ content,
      t.find? (l ++ steps) ≠ some (.file content))
    (short : ∀ name ∈ names, nameTooLong name = false) :
    (t.makeDirectories l names).1 = .ok () := by
  induction names generalizing t l with
  | nil => rfl
  | cons name names ih =>
      have hnext {u : FileTree} (h : ∀ steps, steps ≠ [] → steps <+: name :: names → ∀ content,
          u.find? (l ++ steps) ≠ some (.file content)) :
          (u.makeDirectories (l ++ [name]) names).1 = .ok () := by
        refine ih (fun steps _ hs content => ?_) fun n hn => short n (List.mem_cons_of_mem _ hn)
        rw [List.append_assoc]
        exact h (name :: steps) (List.cons_ne_nil _ _) ((List.prefix_cons_inj name).2 hs) content
      rw [makeDirectories]
      split
      next => exact hnext free
      next content hfile => exact absurd hfile (free [name] (by simp) (by simp) content)
      next =>
          rw [if_neg (by simp [short name])]
          refine hnext fun steps hne hs content => ?_
          rw [find?_put (by simp)]
          split
          · exact fun he => by cases he
          · exact free steps hne hs content

theorem enter_eq_ok {step : String} (hl : t.find? l = some .directory)
    (hs : t.find? (l ++ [step]) = some .directory) (hdots : step ≠ "." ∧ step ≠ "..")
    (short : nameTooLong step = false) : t.enter l step = .ok (l ++ [step]) := by
  simp [enter, directory?, hl, hdots, short, hs, bind, Except.bind, pure, Except.pure]

theorem walk_eq_ok {names : List String}
    (way : ∀ steps, steps <+: names → t.find? (l ++ steps) = some .directory)
    (dots : ∀ name ∈ names, name ≠ "." ∧ name ≠ "..")
    (short : ∀ name ∈ names, nameTooLong name = false) : t.walk l names = .ok (l ++ names) := by
  induction names generalizing l with
  | nil => rw [List.append_nil]; rfl
  | cons name names ih =>
      have hl := way [] List.nil_prefix
      have hstep := way [name] (by simp)
      rw [List.append_nil] at hl
      rw [List.forall_mem_cons] at dots short
      have hrest := ih (l := l ++ [name]) (fun steps hs => by
        rw [List.append_assoc]
        exact way (name :: steps) ((List.prefix_cons_inj name).2 hs)) dots.2 short.2
      rw [walk, List.foldlM_cons, enter_eq_ok hl hstep dots.1 short.1]
      rw [List.append_assoc] at hrest
      exact hrest

theorem write_eq_ok {path : String} (h : Fits dir path)
    (way : ∀ steps, steps <+: (Route.ofText path).names.dropLast →
      t.find? (dir ++ steps) = some .directory)
    (free : t.find? (dir ++ (Route.ofText path).names) ≠ some .directory) (content : Bytes) :
    t.write dir path content = .ok (t.put (dir ++ (Route.ofText path).names) (.file content)) := by
  obtain ⟨front, name, hsteps⟩ := (List.eq_nil_or_concat _).resolve_left h.steps_ne_nil
  rw [List.concat_eq_append] at hsteps
  have hshort := h.short
  have hdots := h.ne_dots
  rw [h.names_eq, hsteps] at way free hshort ⊢
  rw [List.dropLast_concat] at way
  rw [hsteps, List.forall_mem_append, List.forall_mem_singleton] at hdots
  rw [List.forall_mem_append, List.forall_mem_singleton] at hshort
  have horigin : origin dir path = dir := by rw [origin, h.rooted_eq]; rfl
  have hwalk : t.walk dir front = .ok (dir ++ front) := walk_eq_ok way hdots.1 hshort.1
  have hdir : t.directory? (dir ++ front) = .ok (dir ++ front) := by
    rw [directory?, way front (List.prefix_refl _)]
  rw [← List.append_assoc] at free ⊢
  simp only [write, h.screen_eq_ok, hsteps, List.getLast?_concat, List.dropLast_concat, horigin,
    hwalk, hdir, h.slash_eq, hdots.2, hshort.2, bind, Except.bind, or_self, Bool.false_eq_true, if_false]
  rfl

theorem makeParents_eq {path : String} (h : Fits dir path) :
    t.makeParents dir path = t.makeDirectories dir (Route.ofText path).names.dropLast := by
  unfold makeParents
  rw [screen_join_parentText h.head?_ne h.screen_eq_ok]

/-- A file can be placed if no other one is in its way and no directory in its place. -/
theorem place_eq_ok {path : String} (h : Fits dir path) (root : t.find? dir = some .directory)
    (way : ∀ steps, steps ≠ [] → steps <+: (Route.ofText path).names.dropLast → ∀ content,
      t.find? (dir ++ steps) ≠ some (.file content))
    (free : t.find? (dir ++ (Route.ofText path).names) ≠ some .directory) (content : Bytes) :
    (t.place dir path content).1 = .ok () := by
  have hmade : (t.makeDirectories dir (Route.ofText path).names.dropLast).1 = .ok () :=
    makeDirectories_eq_ok way fun name hn => h.short name (List.dropLast_subset _ hn)
  have hgrows := grows_makeDirectories t dir (Route.ofText path).names.dropLast
  have hdirs : ∀ steps, steps <+: (Route.ofText path).names.dropLast → steps ≠ [] →
      (t.makeDirectories dir (Route.ofText path).names.dropLast).2.find? (dir ++ steps) =
        some .directory := fun _ => directory_of_makeDirectories hmade
  unfold place
  rw [makeParents_eq h]
  generalize t.makeDirectories dir (Route.ofText path).names.dropLast = made at hmade hgrows hdirs ⊢
  rcases made with ⟨result, v⟩
  obtain rfl : result = .ok () := hmade
  have hway : ∀ steps, steps <+: (Route.ofText path).names.dropLast →
      v.find? (dir ++ steps) = some .directory := fun steps hs => by
    by_cases hne : steps = []
    · rw [hne, List.append_nil]
      exact hgrows.find?_eq root
    · exact hdirs steps hs hne
  have hfree : v.find? (dir ++ (Route.ofText path).names) ≠ some .directory := by
    rcases hgrows (dir ++ (Route.ofText path).names) with he | ⟨-, -, steps, hne, hs, he⟩
    · rwa [he]
    · exact absurd (List.append_cancel_left he).symm (ne_of_isPrefix_dropLast hne hs)
  dsimp only [store]
  rw [write_eq_ok h hway hfree]

end FileTree

end CommitMarking
