import CommitMarking.Proofs.FileSystem.Inside
import CommitMarking.Proofs.Keeping
import Mathlib.Data.List.Forall2

namespace CommitMarking

namespace Scratch

inductive Twins (s : Scratch) : Location → Location → Prop
  | intro {name name' : String} (length : byteLength name = byteLength name')
      (nul : hasNul name = false) (nul' : hasNul name' = false) :
      Twins s (s.parent ++ [name]) (s.parent ++ [name'])

def SameOutside (s : Scratch) (t t' : FileTree) : Prop := t.remove s.parent = t'.remove s.parent

structure SameWithin (s : Scratch) (dir dir' : Location) (t t' : FileTree) : Prop where
  outside : s.SameOutside t t'
  inside : t.inside dir = t'.inside dir'

variable {s : Scratch} {dir dir' : Location}

theorem text_parent (s : Scratch) (name : String) :
    (s.parent ++ [name]).text =
      (if s.parent = [] then "/" else s.parent.text ++ "/") ++ name := by
  split
  next h => simp [h, Location.text]
  next h => exact Location.text_append h name

theorem Twins.level (h : s.Twins dir dir') : dir.Level dir' := by
  cases h with
  | intro length nul nul' =>
      refine ⟨by simp, by simp, ?_, ?_⟩
      · rw [text_parent, text_parent, byteLength_append, byteLength_append, length]
      · rw [text_parent, text_parent, hasNul_append, hasNul_append, nul, nul']

theorem Twins.prefix_left (h : s.Twins dir dir') : s.parent <+: dir := by
  cases h with
  | intro => exact List.prefix_append ..

theorem Twins.prefix_right (h : s.Twins dir dir') : s.parent <+: dir' := by
  cases h with
  | intro => exact List.prefix_append ..

theorem Twins.text_below (h : s.Twins dir dir') :
    s.parent.text.toList <+: dir.text.toList ∧ s.parent.text.toList <+: dir'.text.toList := by
  have hfront (name : String) : s.parent.text.toList <+: (s.parent ++ [name]).text.toList := by
    rw [text_parent]
    split
    next h => simp [h, Location.text]
    next h => simp [String.toList_append, List.append_assoc]
  cases h with
  | intro => exact ⟨hfront _, hfront _⟩

/-- What is done in twin directories keeps the files outside the same. -/
theorem Twins.sameOutside (h : s.Twins dir dir') {t t' u u' : FileTree} (ho : s.SameOutside t t')
    (hu : u.remove dir = t.remove dir) (hu' : u'.remove dir' = t'.remove dir') :
    s.SameOutside u u' :=
  calc
    _ = (u.remove dir).remove s.parent := (FileTree.remove_remove h.prefix_left u).symm
    _ = t.remove s.parent := by rw [hu, FileTree.remove_remove h.prefix_left]
    _ = t'.remove s.parent := ho
    _ = (u'.remove dir').remove s.parent := by rw [hu', FileTree.remove_remove h.prefix_right]
    _ = u'.remove s.parent := FileTree.remove_remove h.prefix_right u'

end Scratch

/-- Two texts that are the same, or the same after the name of a directory that they begin with. -/
def Renamed (dir dir' : Location) (x y : String) : Prop :=
  x = y ∨ ∃ rest, x = dir.text ++ rest ∧ y = dir'.text ++ rest

namespace Renamed

variable {dir dir' : Location} {x y : String}

theorem byteLength_eq (hd : dir.Level dir') (h : Renamed dir dir' x y) :
    byteLength x = byteLength y := by
  obtain rfl | ⟨rest, rfl, rfl⟩ := h
  · rfl
  · rw [byteLength_append, byteLength_append, hd.byteLength_eq]

theorem hasNul_eq (hd : dir.Level dir') (h : Renamed dir dir' x y) : hasNul x = hasNul y := by
  obtain rfl | ⟨rest, rfl, rfl⟩ := h
  · rfl
  · rw [hasNul_append, hasNul_append, hd.hasNul_eq]

theorem join (hd : dir.Level dir') (path : String) :
    Renamed dir dir' (dir.join path) (dir'.join path) := by
  cases hr : (Route.ofText path).rooted with
  | true => exact .inl (by rw [Location.join, Location.join, if_pos hr, if_pos hr])
  | false =>
      refine .inr ⟨"/" ++ path, ?_, ?_⟩
      · rw [Location.join_of_ne_nil hd.ne_nil hr, String.append_assoc]
      · rw [Location.join_of_ne_nil hd.ne_nil' hr, String.append_assoc]

theorem text (dir dir' : Location) : Renamed dir dir' dir.text dir'.text :=
  .inr ⟨"", by simp, by simp⟩

theorem refl (dir dir' : Location) (xs : List String) : List.Forall₂ (Renamed dir dir') xs xs :=
  List.forall₂_same.2 fun _ _ => .inl rfl

end Renamed

/-- Two calls that are the same but for the names of the scratch directories that they are made in. -/
inductive Call.Alike (s : Scratch) : Call → Call → Prop
  | same (c : Call) : Alike s c c
  | renamed {dir dir' : Location} {args args' : List String} (program : String)
      (dirs : s.Twins dir dir') (renamed : List.Forall₂ (Renamed dir dir') args args') :
      Alike s ⟨program, args, dir⟩ ⟨program, args', dir'⟩

namespace World

/-- Two worlds whose files are related and in which the same has happened but for the names of
scratch directories. -/
structure Alike (s : Scratch) (p : FileTree → FileTree → Prop) (w w' : World) : Prop where
  files : p w.files w'.files
  calls : List.Forall₂ (Call.Alike s) w.calls w'.calls
  trace : w.trace = w'.trace

/-- All scratch directories that there were had names of one length without NUL. -/
def Uniform (length : Nat) (w : World) : Prop :=
  ∀ name ∈ w.made, byteLength name = length ∧ hasNul name = false

instance (length : Nat) (w : World) : Decidable (Uniform length w) :=
  inferInstanceAs (Decidable (∀ name ∈ w.made, byteLength name = length ∧ hasNul name = false))

theorem Uniform.mono {length : Nat} {v w : World} (h : Uniform length w) (hs : v.made ⊆ w.made) :
    Uniform length v := fun name hn => h name (hs hn)

end World

/-- Two actions that come to the same in worlds that are alike, which are alike again after them, as
long as all scratch directories that they make have names of one length. -/
structure Tracks (s : Scratch) (length : Nat) (p : FileTree → FileTree → Prop) {α : Type}
    (act act' : StateM World α) : Prop where
  grows (w : World) : w.made ⊆ (act.run w).2.made
  grows' (w : World) : w.made ⊆ (act'.run w).2.made
  alike {w w' : World} : w.Alike s p w' → (act.run w).2.Uniform length →
    (act'.run w').2.Uniform length →
    (act.run w).1 = (act'.run w').1 ∧ (act.run w).2.Alike s p (act'.run w').2

namespace Tracks

variable {s : Scratch} {length : Nat} {p : FileTree → FileTree → Prop} {α β : Type}
  {act act' : StateM World α}

theorem pure (a : α) : Tracks s length p (Pure.pure a) (Pure.pure a) :=
  ⟨fun _ => List.Subset.refl _, fun _ => List.Subset.refl _, fun hw _ _ => ⟨rfl, hw⟩⟩

theorem bind {next next' : α → StateM World β} (h : Tracks s length p act act')
    (hn : ∀ a, Tracks s length p (next a) (next' a)) :
    Tracks s length p (act >>= next) (act' >>= next') := by
  refine ⟨fun w => List.Subset.trans (h.grows w) ((hn _).grows _),
    fun w => List.Subset.trans (h.grows' w) ((hn _).grows' _), fun {w w'} hw hu hu' => ?_⟩
  have hfirst := h.alike hw (hu.mono ((hn _).grows _)) (hu'.mono ((hn _).grows' _))
  rw [StateT.run_bind] at hu hu' ⊢
  rw [StateT.run_bind]
  generalize act.run w = first at hfirst hu ⊢
  generalize act'.run w' = first' at hfirst hu' ⊢
  obtain ⟨a, v⟩ := first
  obtain ⟨a', v'⟩ := first'
  obtain ⟨rfl, hv⟩ : a = a' ∧ v.Alike s p v' := hfirst
  exact (hn a).alike hv hu hu'

theorem map (f : α → β) (h : Tracks s length p act act') :
    Tracks s length p (f <$> act) (f <$> act') := by
  rw [map_eq_pure_bind, map_eq_pure_bind]
  exact h.bind fun a => pure (f a)

theorem mapM {act act' : α → StateM World β} {as : List α}
    (h : ∀ a ∈ as, Tracks s length p (act a) (act' a)) :
    Tracks s length p (as.mapM act) (as.mapM act') := by
  induction as with
  | nil => exact pure []
  | cons a as ih =>
      rw [List.mapM_cons, List.mapM_cons]
      refine (h a (List.mem_cons_self ..)).bind fun b => ?_
      exact (ih fun c hc => h c (List.mem_cons_of_mem _ hc)).bind fun bs => pure (b :: bs)

theorem log {call call' : Call} (h : call.Alike s call') :
    Tracks s length p (World.log call) (World.log call') where
  grows _ := List.Subset.refl _
  grows' _ := List.Subset.refl _
  alike hw _ _ := ⟨rfl, hw.files, List.rel_append hw.calls (.cons h .nil), hw.trace⟩

theorem record (name : String) : Tracks s length p (World.record name) (World.record name) where
  grows _ := List.Subset.refl _
  grows' _ := List.Subset.refl _
  alike hw _ _ := ⟨rfl, hw.files, hw.calls, congrArg (· ++ [name]) hw.trace⟩

theorem within {dir dir' : Location} (h : Tracks s length s.SameOutside act act')
    (hk : Keeps id act) (hk' : Keeps id act') : Tracks s length (s.SameWithin dir dir') act act' where
  grows := h.grows
  grows' := h.grows'
  alike {w w'} hw hu hu' := by
    obtain ⟨hresult, hafter⟩ := h.alike ⟨hw.files.outside, hw.calls, hw.trace⟩ hu hu'
    have hfiles : (act.run w).2.files = w.files := hk.view_files w
    have hfiles' : (act'.run w').2.files = w'.files := hk'.view_files w'
    refine ⟨hresult, ⟨hafter.files, ?_⟩, hafter.calls, hafter.trace⟩
    rw [hfiles, hfiles', hw.files.inside]

section Alone

variable (h : Tracks s length s.SameOutside act act) (hk : Keeps id act) {v w : World}
  (hf : v.files = w.files) (hv : (act.run v).2.Uniform length)
  (hw : (act.run w).2.Uniform length)
include h hk hf hv hw

theorem run_anew_alike :
    (act.run v).1 = (act.run w).1 ∧
      (act.run v.anew).2.Alike s s.SameOutside (act.run w.anew).2 := by
  have hanew : v.anew.Alike s s.SameOutside w.anew :=
    ⟨congrArg (FileTree.remove · s.parent) hf, .nil, rfl⟩
  rw [hk.run_eq v] at hv ⊢
  rw [hk.run_eq w] at hw ⊢
  exact h.alike hanew hv hw

theorem run_fst_eq : (act.run v).1 = (act.run w).1 := (h.run_anew_alike hk hf hv hw).1

end Alone

/-- What it does comes after what has happened before, and is what it does alone but for the names of
scratch directories. -/
theorem exists_run_eq {files : FileTree} {made : List String}
    (h : Tracks s length s.SameOutside act act) (hk : Keeps id act) {w : World}
    (hf : w.files = files) (hw : (act.run w).2.Uniform length)
    (ha : (act.run ⟨files, [], [], made⟩).2.Uniform length) :
    let alone := act.run ⟨files, [], [], made⟩
    (act.run w).1 = alone.1 ∧ ∃ calls, List.Forall₂ (Call.Alike s) calls alone.2.calls ∧
      (act.run w).2 = ⟨files, w.calls ++ calls, w.trace ++ alone.2.trace,
        (act.run w).2.made⟩ := by
  intro alone
  have hsame : w.files = (⟨files, [], [], made⟩ : World).files := hf
  obtain ⟨hresult, halike⟩ := h.run_anew_alike hk hsame hw ha
  refine ⟨hresult, (act.run w.anew).2.calls, halike.calls, ?_⟩
  have htrace : (act.run w.anew).2.trace = alone.2.trace := halike.trace
  have hfiles : (act.run w.anew).2.files = files := (hk.view_files w.anew).trans hf
  rw [hk.run_eq w, World.after, World.mk.injEq]
  exact ⟨hfiles, rfl, by rw [htrace], rfl⟩

end Tracks

abbrev Act.Tracks (s : Scratch) (length : Nat) (p : FileTree → FileTree → Prop) {ε α : Type}
    (act act' : Act ε α) : Prop :=
  CommitMarking.Tracks s length p (ExceptT.run act) (ExceptT.run act')

namespace Act.Tracks

variable {s : Scratch} {length : Nat} {p : FileTree → FileTree → Prop} {ε δ α β : Type}
  {act act' : Act ε α}

theorem pure (a : α) : Tracks s length p (Pure.pure a : Act ε α) (Pure.pure a) :=
  CommitMarking.Tracks.pure _

theorem throw (e : ε) :
    Tracks s length p (MonadExcept.throw e : Act ε α) (MonadExcept.throw e) :=
  CommitMarking.Tracks.pure _

theorem bind {next next' : α → Act ε β} (h : Tracks s length p act act')
    (hn : ∀ a, Tracks s length p (next a) (next' a)) :
    Tracks s length p (act >>= next) (act' >>= next') := by
  rw [Tracks, ExceptT.run_bind, ExceptT.run_bind]
  refine CommitMarking.Tracks.bind h fun result => ?_
  cases result with
  | ok a => exact hn a
  | error e => exact CommitMarking.Tracks.pure _

theorem map (f : α → β) (h : Tracks s length p act act') :
    Tracks s length p (f <$> act) (f <$> act') := by
  rw [map_eq_pure_bind, map_eq_pure_bind]
  exact h.bind fun a => pure (f a)

theorem mapM {act act' : α → Act ε β} {as : List α}
    (h : ∀ a ∈ as, Tracks s length p (act a) (act' a)) :
    Tracks s length p (as.mapM act) (as.mapM act') := by
  induction as with
  | nil => exact pure []
  | cons a as ih =>
      rw [List.mapM_cons, List.mapM_cons]
      refine (h a (List.mem_cons_self ..)).bind fun b => ?_
      exact (ih fun c hc => h c (List.mem_cons_of_mem _ hc)).bind fun bs => pure (b :: bs)

theorem lift (result : Except ε α) : Tracks s length p (Act.lift result) (Act.lift result) := by
  cases result with
  | ok a => exact pure a
  | error e => exact throw e

theorem monadLift {act act' : StateM World α} (h : CommitMarking.Tracks s length p act act') :
    Tracks s length p (liftM act : Act ε α) (liftM act') := h.map Except.ok

theorem mapError (f : ε → δ) (h : Tracks s length p act act') :
    Tracks s length p (Act.mapError f act) (Act.mapError f act') := by
  exact CommitMarking.Tracks.map (Except.mapError f) h

theorem onFiles {f f' : FileTree → Except ε α × FileTree}
    (h : ∀ t t', p t t' → (f t).1 = (f' t').1 ∧ p (f t).2 (f' t').2) :
    Tracks s length p (Act.onFiles f) (Act.onFiles f') where
  grows _ := List.Subset.refl _
  grows' _ := List.Subset.refl _
  alike hw _ _ := ⟨(h _ _ hw.files).1, (h _ _ hw.files).2, hw.calls, hw.trace⟩

theorem get_bind {next next' : World → Act ε α}
    (hg : ∀ w, w.made ⊆ ((next w).run w).2.made) (hg' : ∀ w, w.made ⊆ ((next' w).run w).2.made)
    (hn : ∀ w w', w.Alike s p w' → Tracks s length p (next w) (next' w')) :
    Tracks s length p (get >>= next) (get >>= next') :=
  ⟨hg, hg', fun hw hu hu' => (hn _ _ hw).alike hw hu hu'⟩

/-- What does the same in directories with the same contents can be done in two scratch directories,
whatever they are called. -/
theorem inScratch {act : Location → Act ε α}
    (h : ∀ dir dir', s.Twins dir dir' → Tracks s length (s.SameWithin dir dir') (act dir) (act dir'))
    (hk : ∀ dir, Keeps (·.remove dir) (act dir)) :
    Tracks s length s.SameOutside (World.inScratch s act) (World.inScratch s act) := by
  have hkeeps := Keeps.inScratch (s := s) hk
  refine ⟨hkeeps.made_subset, hkeeps.made_subset, fun {w w'} hw hu hu' => ?_⟩
  have hname (v : World) : s.name v ∈ ((World.inScratch s act).run v).2.made :=
    (hk (s.directory v)).made_subset (s.opened v)
      (List.mem_append_right _ (List.mem_singleton_self _))
  have hdirs : s.Twins (s.directory w) (s.directory w') :=
    .intro ((hu _ (hname w)).1.trans (hu' _ (hname w')).1.symm) (hu _ (hname w)).2
      (hu' _ (hname w')).2
  have hopened : (s.opened w).Alike s (s.SameWithin (s.directory w) (s.directory w'))
      (s.opened w') := by
    -- Neither name was taken, so that there is nothing in either directory yet.
    refine ⟨⟨?_, ?_⟩, hw.calls, hw.trace⟩
    · exact (FileTree.remove_put hdirs.prefix_left _ _).trans
        (hw.files.trans (FileTree.remove_put hdirs.prefix_right _ _).symm)
    · exact (FileTree.inside_put_directory (s.name_not_mem_names w)).trans
        (FileTree.inside_put_directory (s.name_not_mem_names w')).symm
  obtain ⟨hresult, hafter⟩ := (h _ _ hdirs).alike hopened hu hu'
  refine ⟨hresult, ?_, hafter.calls, hafter.trace⟩
  have hfiles := hkeeps.view_files w
  have hfiles' := hkeeps.view_files w'
  rw [Scratch.SameOutside]
  exact (congrArg (·.remove s.parent) hfiles).trans
    (hw.files.trans (congrArg (·.remove s.parent) hfiles').symm)

end Act.Tracks

end CommitMarking
