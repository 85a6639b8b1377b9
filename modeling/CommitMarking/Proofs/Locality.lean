import CommitMarking.Proofs.Checkout
import CommitMarking.Proofs.Renaming
import Mathlib.Data.List.Find

namespace CommitMarking

def Resident.onFiles (program : String)
    (f : List String → Location → FileTree → Process × FileTree) : Resident where
  program
  run _ args dir := fun w => ((f args dir w.files).1, { w with files := (f args dir w.files).2 })

theorem Resident.onFiles_keeps {program : String}
    {f : List String → Location → FileTree → Process × FileTree}
    (h : ∀ args dir t, (f args dir t).2.remove dir = t.remove dir) (limit : Option Nat)
    (args : List String) (dir : Location) :
    Keeps (·.remove dir) ((onFiles program f).run limit args dir) :=
  ⟨fun _ _ => rfl, fun w => h args dir w.files, fun _ => List.Subset.refl _⟩

namespace Machine

/-- A program does the same in two scratch directories with the same contents, whatever they are
called, and can be started in either or in none. -/
structure Local (m : Machine) (length : Nat) (program : String) : Prop where
  absence?_eq {dir dir' : Location} {t t' : FileTree} : m.resident? program = none →
    m.scratch.Twins dir dir' → m.scratch.SameWithin dir dir' t t' →
    m.absence? t dir program = m.absence? t' dir' program
  launch_tracks {dir dir' : Location} {args args' : List String} (limit : Option Nat) :
    m.scratch.Twins dir dir' → List.Forall₂ (Renamed dir dir') args args' →
    Tracks m.scratch length (m.scratch.SameWithin dir dir') (m.launch limit ⟨program, args, dir⟩)
      (m.launch limit ⟨program, args', dir'⟩)

section Renaming

variable {m : Machine} {dir dir' : Location} {t t' : FileTree} {program : String}
  {args args' : List String}

theorem argumentSize_eq (hd : dir.Level dir') (ha : List.Forall₂ (Renamed dir dir') args args') :
    argumentSize args = argumentSize args' := by
  induction ha with
  | nil => rfl
  | cons h _ ih => exact congrArg₂ (· + ·) (congrArg (· + 9) (h.byteLength_eq hd)) ih

theorem any_eq {f : String → Bool} (hf : ∀ x y, Renamed dir dir' x y → f x = f y)
    (ha : List.Forall₂ (Renamed dir dir') args args') : args.any f = args'.any f := by
  induction ha with
  | nil => rfl
  | cons h _ ih => rw [List.any_cons, List.any_cons, hf _ _ h, ih]

theorem lacksRoom_eq (hd : dir.Level dir') (ha : List.Forall₂ (Renamed dir dir') args args') :
    m.lacksRoom ⟨program, args, dir⟩ = m.lacksRoom ⟨program, args', dir'⟩ := by
  have hlong : args.any argumentTooLong = args'.any argumentTooLong := any_eq (fun x y h => by
    rw [argumentTooLong, argumentTooLong, h.byteLength_eq hd]) ha
  have hsize : argumentSize (program :: args) = argumentSize (program :: args') :=
    congrArg (byteLength program + 9 + ·) (argumentSize_eq hd ha)
  simp only [lacksRoom, hlong, hsize]

/-- Both calls can be made, or neither for one reason. -/
theorem Local.admission_agree {length : Nat} (h : m.Local length program)
    (dirs : m.scratch.Twins dir dir') (ha : List.Forall₂ (Renamed dir dir') args args')
    (ht : m.scratch.SameWithin dir dir' t t') :
    Agree (fun call call' => call = ⟨program, args, dir⟩ ∧ call' = ⟨program, args', dir'⟩)
      (m.admission t (.ok dir) program args) (m.admission t' (.ok dir') program args') := by
  have hd := dirs.level
  have hnul : args.any hasNul = args'.any hasNul := any_eq (fun x y h => h.hasNul_eq hd) ha
  have habsence : m.refusal? t ⟨program, args, dir⟩ = m.refusal? t' ⟨program, args', dir'⟩ := by
    simp only [refusal?, lacksRoom_eq hd ha]
    cases hr : m.resident? program with
    | some r => rfl
    | none => rw [h.absence?_eq hr dirs ht]
  rw [admission, admission, hnul]
  split
  · exact .error _
  · refine Agree.bind (p := fun l l' => l = dir ∧ l' = dir') ?_ ?_
    · change Agree _ (t.directory? dir) (t'.directory? dir')
      rw [FileTree.directory?, FileTree.directory?,
        FileTree.find?_of_inside_eq hd ht.inside (.refl dir dir')]
      rcases t'.find? dir' with _ | _ | _
      · exact .error _
      · exact .ok ⟨rfl, rfl⟩
      · exact .error _
    · rintro l l' ⟨rfl, rfl⟩
      rw [habsence]
      split
      · exact .error _
      · exact .ok ⟨rfl, rfl⟩

theorem Local.start_tracks {length : Nat} (h : m.Local length program)
    (dirs : m.scratch.Twins dir dir') (ha : List.Forall₂ (Renamed dir dir') args args')
    (limit : Option Nat) (group : ProcessGroup) :
    Act.Tracks m.scratch length (m.scratch.SameWithin dir dir')
      (m.start (.ok dir) limit group program args)
      (m.start (.ok dir') limit group program args') := by
  have hstarted : Act.Tracks m.scratch length (m.scratch.SameWithin dir dir') (ε := SystemError)
      (do World.log ⟨program, args, dir⟩
          return (← m.launch limit ⟨program, args, dir⟩).execution limit group)
      (do World.log ⟨program, args', dir'⟩
          return (← m.launch limit ⟨program, args', dir'⟩).execution limit group) :=
    (Act.Tracks.monadLift (.log (.renamed program dirs ha))).bind fun _ =>
      (Act.Tracks.monadLift (h.launch_tracks limit dirs ha)).bind fun _ => .pure _
  refine Act.Tracks.get_bind (fun w => ?_) (fun w => ?_) fun w w' hw => ?_
  · cases hcall : m.admission w.files (.ok dir) program args with
    | error e => exact List.Subset.refl _
    | ok call =>
        obtain ⟨_, hplace, rfl⟩ := admission_ok hcall
        cases hplace
        exact hstarted.grows w
  · cases hcall : m.admission w.files (.ok dir') program args' with
    | error e => exact List.Subset.refl _
    | ok call =>
        obtain ⟨_, hplace, rfl⟩ := admission_ok hcall
        cases hplace
        exact hstarted.grows' w
  · have hagree := h.admission_agree dirs ha hw.files
    generalize m.admission w.files (.ok dir) program args = admitted at hagree
    generalize m.admission w'.files (.ok dir') program args' = admitted' at hagree
    cases hagree with
    | error e => exact .throw e
    | ok hcalls =>
        obtain ⟨rfl, rfl⟩ := hcalls
        exact hstarted

theorem Local.execute_tracks {length : Nat} (h : m.Local length program)
    (dirs : m.scratch.Twins dir dir') (ha : List.Forall₂ (Renamed dir dir') args args')
    (timeout : Nat) :
    Act.Tracks m.scratch length (m.scratch.SameWithin dir dir')
      (m.execute (.ok dir) timeout (program :: args))
      (m.execute (.ok dir') timeout (program :: args')) := by
  unfold execute executeWith
  split
  · exact .throw _
  · exact (h.start_tracks dirs ha (some timeout) .own).mapError _

end Renaming

section Sources

variable {m : Machine} {length : Nat} {program : String} {dir dir' : Location}

theorem local_of_onFiles {f : List String → Location → FileTree → Process × FileTree}
    (hr : m.resident? program = some (.onFiles program f))
    (h : ∀ {dir dir' args args' t t'}, m.scratch.Twins dir dir' →
      List.Forall₂ (Renamed dir dir') args args' → m.scratch.SameWithin dir dir' t t' →
      (f args dir t).1 = (f args' dir' t').1 ∧
        m.scratch.SameWithin dir dir' (f args dir t).2 (f args' dir' t').2) :
    m.Local length program where
  absence?_eq hn := by rw [hr] at hn; cases hn
  launch_tracks limit dirs ha := by
    simp only [launch, hr]
    exact ⟨fun _ => List.Subset.refl _, fun _ => List.Subset.refl _, fun hw _ _ =>
      ⟨(h dirs ha hw.files).1, (h dirs ha hw.files).2, hw.calls, hw.trace⟩⟩

/-- A rule that does not look for arguments which name a scratch directory, and does not write its
arguments out. -/
structure Unnaming (s : Scratch) (r : Rule) : Prop where
  args_eq : r.args = none
  has_outside : ∀ arg ∈ r.has, ¬s.parent.text.toList <+: arg.toList
  echoArgs_eq : r.echoArgs = false

theorem unnaming_unmatched (s : Scratch) (program : String) : Unnaming s (.unmatched program) :=
  ⟨rfl, fun _ h => (nomatch h), rfl⟩

theorem contains_of_renamed {s : Scratch} (dirs : s.Twins dir dir') {args args' : List String}
    (ha : List.Forall₂ (Renamed dir dir') args args') {arg : String}
    (harg : ¬s.parent.text.toList <+: arg.toList) : args.contains arg = args'.contains arg := by
  have htext {l : Location} (hl : s.parent.text.toList <+: l.text.toList) (rest : String) :
      arg ≠ l.text ++ rest := by
    rintro rfl
    exact harg (hl.trans (by simp))
  induction ha with
  | nil => rfl
  | @cons x y xs ys h _ ih =>
      have hiff : arg = x ↔ arg = y := by
        obtain rfl | ⟨rest, rfl, rfl⟩ := h
        · rfl
        · exact iff_of_false (htext dirs.text_below.1 rest) (htext dirs.text_below.2 rest)
      simp only [List.contains_cons, ih, beq_eq_decide, hiff]

namespace Unnaming

variable {s : Scratch} {r : Rule} {args args' : List String}

theorem fits_eq (h : Unnaming s r) (dirs : s.Twins dir dir')
    (ha : List.Forall₂ (Renamed dir dir') args args') :
    r.fits ⟨program, args, dir⟩ = r.fits ⟨program, args', dir'⟩ := by
  have hhas : r.has.all args.contains = r.has.all args'.contains := by
    rw [Bool.eq_iff_iff, List.all_eq_true, List.all_eq_true]
    refine forall₂_congr fun arg harg => ?_
    rw [contains_of_renamed dirs ha (h.has_outside arg harg)]
  simp only [Rule.fits, h.args_eq, hhas, Option.all_none]

theorem process_eq (h : Unnaming s r) {t t' : FileTree} (ht : s.SameWithin dir dir' t t') :
    r.process ⟨program, args, dir⟩ t = r.process ⟨program, args', dir'⟩ t' := by
  have hfiles : t.filesBelow dir = t'.filesBelow dir' := by
    rw [FileTree.filesBelow_eq, FileTree.filesBelow_eq, ht.inside]
  simp only [Rule.process, Rule.output, h.echoArgs_eq, hfiles, Bool.false_eq_true, if_false]

end Unnaming

theorem local_of_rules (hn : m.resident? program = none) (hslash : '/' ∉ program.toList)
    (hrules : ∀ r ∈ m.rules, Unnaming m.scratch r) : m.Local length program where
  absence?_eq _ _ _ := by simp [absence?, hslash]
  launch_tracks {dir dir' args args'} limit dirs ha := by
    have hrule : m.rule ⟨program, args, dir⟩ = m.rule ⟨program, args', dir'⟩ := by
      have hfits : ∀ r ∈ m.rules, r.fits ⟨program, args, dir⟩ = r.fits ⟨program, args', dir'⟩ :=
        fun r hr => (hrules r hr).fits_eq dirs ha
      rw [rule, rule, List.find?_congr hfits]
    have hplain : Unnaming m.scratch (m.rule ⟨program, args', dir'⟩) := by
      unfold rule
      cases hr : m.rules.find? (·.fits ⟨program, args', dir'⟩) with
      | none => exact unnaming_unmatched _ _
      | some r => exact hrules r (List.mem_of_find?_eq_some hr)
    simp only [launch, hn, hrule]
    exact ⟨fun _ => List.Subset.refl _, fun _ => List.Subset.refl _,
      fun hw _ _ => ⟨hplain.process_eq hw.files, hw⟩⟩

end Sources

end Machine

section Runs

variable {s : Scratch} {length : Nat} {dir dir' : Location}

theorem place_sameWithin (dirs : s.Twins dir dir') {path : String}
    (hi : (Route.ofText path).inside = true) (content : Bytes) {t t' : FileTree}
    (h : s.SameWithin dir dir' t t') :
    (t.place dir path content).1 = (t'.place dir' path content).1 ∧
      s.SameWithin dir dir' (t.place dir path content).2 (t'.place dir' path content).2 := by
  obtain ⟨hresult, hinside⟩ := FileTree.place_of_inside_eq dirs.level h.inside hi content
  exact ⟨hresult, dirs.sameOutside h.outside (FileTree.remove_place hi t content)
    (FileTree.remove_place hi t' content), hinside⟩

theorem store_sameWithin (dirs : s.Twins dir dir') {path : String}
    (hi : (Route.ofText path).inside = true) (content : Bytes) {t t' : FileTree}
    (h : s.SameWithin dir dir' t t') :
    (t.store dir path content).1 = (t'.store dir' path content).1 ∧
      s.SameWithin dir dir' (t.store dir path content).2 (t'.store dir' path content).2 := by
  obtain ⟨hresult, hinside⟩ := FileTree.store_of_inside_eq dirs.level h.inside hi content
  exact ⟨hresult, dirs.sameOutside h.outside (FileTree.remove_store hi t content)
    (FileTree.remove_store hi t' content), hinside⟩

/-- What a checkout answers with is known before it. -/
theorem checkout_eq_map (dir : Location) (keep : Entry → Bool) (entries : List Entry) :
    checkout dir keep entries =
      let kept := entries.filter fun e => !e.isDeletion && keep e
      (fun _ => kept.map (Entry.target dir)) <$>
        kept.mapM fun e => (fun _ => ()) <$> checkoutEntry dir e := by
  have hentry (e : Entry) : checkoutEntry dir e =
      (fun _ => e.target dir) <$> (fun _ => ()) <$> checkoutEntry dir e := by
    unfold checkoutEntry
    split <;> simp [Entry.target]
  unfold checkout
  induction entries.filter fun e => !e.isDeletion && keep e with
  | nil => simp
  | cons e es ih =>
      dsimp only at ih ⊢
      rw [List.mapM_cons, List.mapM_cons, ih, hentry]
      simp

theorem store_tracks (dirs : s.Twins dir dir') (e : Entry) :
    Act.Tracks s length (s.SameWithin dir dir') ((fun _ => ()) <$> checkoutEntry dir e)
      ((fun _ => ()) <$> checkoutEntry dir' e) := by
  unfold checkoutEntry
  cases hi : (Route.ofText e.path).inside with
  | false => exact (Act.Tracks.throw _).map _
  | true =>
      simp only [if_true, map_bind, map_pure]
      exact (Act.Tracks.onFiles fun t t' ht => place_sameWithin dirs hi e.after ht).mapError _ |>.bind
        fun _ => .pure _

end Runs

namespace Machine.Local

variable {m : Machine} {length : Nat} {dir dir' : Location}

theorem build_tracks {c : Compiler} (h : m.Local length c.program)
    (dirs : m.scratch.Twins dir dir') (commit : Commit) :
    Act.Tracks m.scratch length (m.scratch.SameWithin dir dir') (c.build m commit dir)
      (c.build m commit dir') := by
  let kept := commit.entries.filter fun e => !e.isDeletion && c.accepts e
  have hpaths : List.Forall₂ (Renamed dir dir') (kept.map (Entry.target dir))
      (kept.map (Entry.target dir')) := by
    rw [List.forall₂_map_left_iff, List.forall₂_map_right_iff, List.forall₂_same]
    exact fun e _ => .join dirs.level e.path
  let options := c.flags ++ if c.classpath ≠ [] ∧ c.classpathFlag ≠ "" then
    [c.classpathFlag, ":".intercalate c.classpath] else []
  let output (dir : Location) := if c.outputFlag ≠ "" then [c.outputFlag, dir.text] else []
  have houtput : List.Forall₂ (Renamed dir dir') (output dir) (output dir') := by
    simp only [output]
    split
    · exact .cons (.inl rfl) (.cons (.text dir dir') .nil)
    · exact .nil
  have hargs : List.Forall₂ (Renamed dir dir') (options ++ output dir ++ kept.map (Entry.target dir))
      (options ++ output dir' ++ kept.map (Entry.target dir')) :=
    List.rel_append (List.rel_append (Renamed.refl dir dir' options) houtput) hpaths
  have hcommand (dir : Location) (paths : List String) :
      c.command dir.text paths = c.program :: (options ++ output dir ++ paths) := by
    simp [Compiler.command, options, output]
  unfold Compiler.build
  rw [checkout_eq_map, checkout_eq_map]
  simp only [bind_map_left, hcommand]
  refine (Act.Tracks.mapM fun e _ => store_tracks dirs e).bind fun _ => ?_
  exact (h.execute_tracks dirs hargs c.timeout).bind fun _ => .pure _

theorem test_tracks {t : Testing}
    (h : ∀ suite ∈ t.suites, ∀ program ∈ (t.host ++ [suite]).head?, m.Local length program)
    (dirs : m.scratch.Twins dir dir') :
    Tracks m.scratch length (m.scratch.SameWithin dir dir') (t.test m dir) (t.test m dir') := by
  refine (Tracks.mapM fun suite hs => ?_).bind fun outcomes => .pure _
  have hexecute : Act.Tracks m.scratch length (m.scratch.SameWithin dir dir')
      (m.execute (.ok dir) t.timeout (t.host ++ [suite, dir.text]))
      (m.execute (.ok dir') t.timeout (t.host ++ [suite, dir'.text])) := by
    have hlocal := h suite hs
    have hdir := List.Forall₂.cons (Renamed.text dir dir') .nil
    cases hhost : t.host with
    | nil => exact (hlocal suite (by simp [hhost])).execute_tracks dirs hdir t.timeout
    | cons program args =>
        exact (hlocal program (by simp [hhost])).execute_tracks dirs
          (List.rel_append (Renamed.refl dir dir' args) (.cons (.inl rfl) hdir)) t.timeout
  refine Tracks.bind hexecute fun result => ?_
  cases result <;> exact .pure _

end Machine.Local

end CommitMarking
