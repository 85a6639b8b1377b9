import CommitMarking.Compiler
import CommitMarking.Testing
import CommitMarking.Proofs.FileSystem.Below

namespace CommitMarking

namespace World

def anew (w : World) : World := { w with calls := [], trace := [] }

/-- A world as it is if all that was started and recorded in `past` came before it. -/
def after (w past : World) : World :=
  { w with calls := past.calls ++ w.calls, trace := past.trace ++ w.trace }

@[simp] theorem anew_after (w : World) : w.anew.after w = w := by
  simp [anew, after]

@[simp] theorem files_after (w past : World) : (w.after past).files = w.files := rfl

@[simp] theorem files_anew (w : World) : w.anew.files = w.files := rfl

end World

/-- A new scratch directory is taken away with all traces. -/
theorem Scratch.remove_directory (s : Scratch) (w : World) : (s.opened w).files.remove (s.directory w) = w.files :=
  calc
    _ = w.files.remove (s.directory w) := FileTree.remove_put (List.prefix_refl _) _ _
    _ = w.files := FileTree.remove_of_not_mem_names (s.name_not_mem_names w)

/-- An action that does the same whatever was started and recorded before it, that changes nothing
which `view` shows of the file system and that forgets no name of a scratch directory. -/
structure Keeps {α : Type} (view : FileTree → FileTree) (act : StateM World α) : Prop where
  run_after (w past : World) : act.run (w.after past) = ((act.run w).1, (act.run w).2.after past)
  view_files (w : World) : view (act.run w).2.files = view w.files
  made_subset (w : World) : w.made ⊆ (act.run w).2.made

section Actions

variable {α β : Type} {view : FileTree → FileTree}

namespace Keeps

theorem pure (a : α) : Keeps view (Pure.pure a) :=
  ⟨fun _ _ => rfl, fun _ => rfl, fun _ => List.Subset.refl _⟩

theorem bind {act : StateM World α} {next : α → StateM World β} (h : Keeps view act)
    (hn : ∀ a, Keeps view (next a)) : Keeps view (act >>= next) := by
  constructor
  · intro w past
    rw [StateT.run_bind, h.run_after]
    exact (hn _).run_after _ past
  · intro w
    exact ((hn _).view_files _).trans (h.view_files w)
  · intro w
    exact List.Subset.trans (h.made_subset w) ((hn _).made_subset _)

theorem map {act : StateM World α} (f : α → β) (h : Keeps view act) : Keeps view (f <$> act) := by
  rw [map_eq_pure_bind]
  exact h.bind fun a => pure (f a)

theorem mapM {act : α → StateM World β} (h : ∀ a, Keeps view (act a)) (as : List α) :
    Keeps view (as.mapM act) := by
  induction as with
  | nil => exact pure []
  | cons a as ih =>
      rw [List.mapM_cons]
      exact (h a).bind fun b => ih.bind fun bs => pure (b :: bs)

theorem of_id {act : StateM World α} (h : Keeps id act) : Keeps view act :=
  ⟨h.run_after, fun w => congrArg view (h.view_files w), h.made_subset⟩

theorem update {f : World → World} (ha : ∀ w past, f (w.after past) = (f w).after past)
    (hf : ∀ w, (f w).files = w.files) (hm : ∀ w, (f w).made = w.made) : Keeps view (modify f) where
  run_after w past := congrArg (Prod.mk _) (ha w past)
  view_files w := congrArg view (hf w)
  made_subset w := by
    rw [show (modify f : StateM World Unit).run w = ((), f w) from rfl, hm]
    exact List.Subset.refl _

theorem get_bind {next : World → StateM World α} (ha : ∀ w past, next (w.after past) = next w)
    (hn : ∀ w, Keeps view (next w)) : Keeps view (get >>= next) := by
  constructor
  · intro w past
    change (next (w.after past)).run (w.after past) = _
    rw [ha]
    exact (hn w).run_after w past
  · intro w
    exact (hn w).view_files w
  · intro w
    exact (hn w).made_subset w

theorem run_eq {act : StateM World α} (h : Keeps view act) (w : World) :
    act.run w = ((act.run w.anew).1, (act.run w.anew).2.after w) := by
  rw [← h.run_after, World.anew_after]

/-- What does not depend on the past ends alike in worlds that differ in it alone. -/
theorem run_congr {act : StateM World α} (h : Keeps view act) {v w : World}
    (ha : v.anew = w.anew) :
    (act.run v).1 = (act.run w).1 ∧ (act.run v).2.anew = (act.run w).2.anew := by
  rw [h.run_eq v, h.run_eq w, ha]
  exact ⟨rfl, rfl⟩

theorem log (call : Call) : Keeps view (World.log call) :=
  update (fun w past => by simp [World.after]) (fun _ => rfl) fun _ => rfl

theorem record (name : String) : Keeps view (World.record name) :=
  update (fun w past => by simp [World.after]) (fun _ => rfl) fun _ => rfl

end Keeps

end Actions

abbrev Act.Keeps {ε α : Type} (view : FileTree → FileTree) (act : Act ε α) : Prop :=
  CommitMarking.Keeps view (ExceptT.run act)

namespace Act.Keeps

variable {ε δ α β : Type} {view : FileTree → FileTree}

theorem pure (a : α) : Keeps view (Pure.pure a : Act ε α) := CommitMarking.Keeps.pure _

theorem throw (e : ε) : Keeps view (MonadExcept.throw e : Act ε α) := CommitMarking.Keeps.pure _

theorem bind {act : Act ε α} {next : α → Act ε β} (h : Keeps view act)
    (hn : ∀ a, Keeps view (next a)) : Keeps view (act >>= next) := by
  rw [Keeps, ExceptT.run_bind]
  refine CommitMarking.Keeps.bind h fun result => ?_
  cases result with
  | ok a => exact hn a
  | error e => exact CommitMarking.Keeps.pure _

theorem map {act : Act ε α} (f : α → β) (h : Keeps view act) : Keeps view (f <$> act) := by
  rw [map_eq_pure_bind]
  exact h.bind fun a => pure (f a)

theorem mapM {act : α → Act ε β} {as : List α} (h : ∀ a ∈ as, Keeps view (act a)) :
    Keeps view (as.mapM act) := by
  induction as with
  | nil => exact pure []
  | cons a as ih =>
      rw [List.mapM_cons]
      refine (h a (List.mem_cons_self ..)).bind fun b => ?_
      exact (ih fun c hc => h c (List.mem_cons_of_mem _ hc)).bind fun bs => pure (b :: bs)

theorem lift (result : Except ε α) : Keeps view (Act.lift result) := by
  cases result with
  | ok a => exact pure a
  | error e => exact throw e

theorem monadLift {act : StateM World α} (h : CommitMarking.Keeps view act) :
    Keeps view (liftM act : Act ε α) := h.map Except.ok

theorem get_bind {next : World → Act ε α} (ha : ∀ w past, next (w.after past) = next w)
    (hn : ∀ w, Keeps view (next w)) : Keeps view (get >>= next) := by
  have h : CommitMarking.Keeps view (get >>= fun w => ExceptT.run (next w)) :=
    .get_bind (fun w past => by rw [ha]) hn
  exact h

theorem mapError (f : ε → δ) {act : Act ε α} (h : Keeps view act) :
    Keeps view (Act.mapError f act) := by
  exact CommitMarking.Keeps.map (Except.mapError f) h

theorem onFiles {f : FileTree → Except ε α × FileTree} (h : ∀ t, view (f t).2 = view t) :
    Keeps view (Act.onFiles f) :=
  ⟨fun _ _ => rfl, fun w => h w.files, fun _ => List.Subset.refl _⟩

/-- What is done in a scratch directory leaves the files as they are if it leaves those outside of
the directory as they are. -/
theorem inScratch {s : Scratch} {act : Location → Act ε α}
    (h : ∀ dir, Keeps (·.remove dir) (act dir)) : Keeps id (World.inScratch s act) := by
  constructor
  · intro w past
    have ha := (h (s.directory w)).run_after (s.opened w) past
    let tidy (r : Except ε α × World) : Except ε α × World :=
      (r.1, { r.2 with files := r.2.files.remove (s.directory w) })
    exact congrArg tidy ha
  · intro w
    exact ((h (s.directory w)).view_files (s.opened w)).trans (s.remove_directory w)
  · intro w
    have hopened : w.made ⊆ (s.opened w).made := List.subset_append_left ..
    exact List.Subset.trans hopened ((h (s.directory w)).made_subset (s.opened w))

theorem lift_bind {result : Except ε α} {next : α → Act ε β}
    (h : ∀ a, result = .ok a → Keeps view (next a)) : Keeps view (Act.lift result >>= next) := by
  cases result with
  | ok a => exact h a rfl
  | error e => exact throw e

/-- What keeps all files does after another action of its kind what it does alone, but that it
cannot have the names that were made in the meantime. -/
theorem run_run {act : Act ε α} {next : Act ε β} (h : Keeps id act) (hn : Keeps id next)
    (w : World) :
    let first := act.run w.anew
    let second := next.run first.2.anew
    (act.run w).1 = first.1 ∧ next.run (act.run w).2 =
      (second.1, ⟨w.files, w.calls ++ first.2.calls ++ second.2.calls,
        w.trace ++ first.2.trace ++ second.2.trace, second.2.made⟩) := by
  intro first second
  have hfirst : first.2.files = w.files := h.view_files w.anew
  have hsecond : second.2.files = w.files := (hn.view_files first.2.anew).trans hfirst
  have hact : act.run w = (first.1, first.2.after w) := h.run_eq w
  have hnext : next.run (first.2.after w) = (second.1, second.2.after (first.2.after w)) :=
    hn.run_eq (first.2.after w)
  rw [hact]
  refine ⟨rfl, hnext.trans ?_⟩
  rw [Prod.mk.injEq]
  refine ⟨rfl, ?_⟩
  simp only [World.after, List.append_assoc]
  rw [World.mk.injEq]
  exact ⟨hsecond, rfl, rfl, rfl⟩

end Act.Keeps

theorem checkoutEntry_keeps (dir : Location) (e : Entry) :
    Act.Keeps (·.remove dir) (checkoutEntry dir e) := by
  unfold checkoutEntry
  cases hi : (Route.ofText e.path).inside with
  | false => exact Act.Keeps.throw _
  | true =>
      refine Act.Keeps.bind (Act.Keeps.mapError _ ?_) fun _ => Act.Keeps.pure _
      exact Act.Keeps.onFiles fun t => FileTree.remove_place hi t e.after

theorem checkout_keeps (dir : Location) (keep : Entry → Bool) (entries : List Entry) :
    Act.Keeps (·.remove dir) (checkout dir keep entries) :=
  Act.Keeps.mapM fun e _ => checkoutEntry_keeps dir e

namespace Machine

/-- The programs that can do more than write do the same whatever was started before, and change
nothing outside of the directory that they are started in. -/
def Contained (m : Machine) : Prop :=
  ∀ r ∈ m.residents, ∀ limit args dir, Keeps (·.remove dir) (r.run limit args dir)

theorem mem_residents {m : Machine} {program : String} {r : Resident}
    (h : m.resident? program = some r) : r ∈ m.residents := List.mem_of_find?_eq_some h

theorem launch_keeps {m : Machine} {view : FileTree → FileTree} {limit : Option Nat} {c : Call}
    (h : ∀ r ∈ m.residents, Keeps view (r.run limit c.args c.dir)) :
    Keeps view (m.launch limit c) := by
  unfold launch
  cases hr : m.resident? c.program with
  | some r => exact h r (mem_residents hr)
  | none => exact Keeps.get_bind (fun _ _ => rfl) fun _ => .pure _

theorem start_keeps {m : Machine} {view : FileTree → FileTree} {place : Place} {limit : Option Nat}
    {args : List String}
    (h : ∀ r ∈ m.residents, ∀ dir, place = .ok dir → Keeps view (r.run limit args dir))
    (group : ProcessGroup) (program : String) :
    Act.Keeps view (m.start place limit group program args) := by
  refine Act.Keeps.get_bind (fun _ _ => rfl) fun w => Act.Keeps.lift_bind fun call hcall => ?_
  obtain ⟨dir, hplace, rfl⟩ := admission_ok hcall
  have hlaunch : Keeps view (m.launch limit ⟨program, args, dir⟩) :=
    launch_keeps fun r hr => h r hr dir hplace
  exact (Act.Keeps.monadLift (.log _)).bind fun _ =>
    (Act.Keeps.monadLift hlaunch).bind fun _ => .pure _

theorem executeWith_cons {m : Machine} {group : ProcessGroup} {timeout : Nat} (ht : 0 < timeout)
    (place : Place) (program : String) (args : List String) :
    m.executeWith group place timeout (program :: args) =
      (m.start place (some timeout) group program args).mapError (.spawn program) := by
  rw [executeWith, if_neg (Nat.ne_of_gt ht)]

theorem executeWith_keeps {m : Machine} {view : FileTree → FileTree} {place : Place}
    (h : ∀ r ∈ m.residents, ∀ limit args dir, place = .ok dir → Keeps view (r.run limit args dir))
    (group : ProcessGroup) (timeout : Nat) (command : List String) :
    Act.Keeps view (m.executeWith group place timeout command) := by
  unfold Machine.executeWith
  split
  · exact Act.Keeps.throw _
  · cases command with
    | nil => exact Act.Keeps.throw _
    | cons program args =>
        exact (start_keeps (fun r hr => h r hr _ _) group program).mapError _

variable {m : Machine}

theorem Contained.execute (h : m.Contained) (dir : Location) (timeout : Nat)
    (command : List String) : Act.Keeps (·.remove dir) (m.execute (.ok dir) timeout command) := by
  refine executeWith_keeps (fun r hr limit args l hl => ?_) .own timeout command
  cases hl
  exact h r hr limit args dir

theorem Contained.build (h : m.Contained) (c : Compiler) (commit : Commit) (dir : Location) :
    Act.Keeps (·.remove dir) (c.build m commit dir) :=
  (checkout_keeps dir c.accepts commit.entries).bind fun files =>
    (h.execute dir c.timeout (c.command dir.text files)).bind fun _ => .pure _

theorem Contained.runSuite (h : m.Contained) (t : Testing) (dir : Location) (suite : String) :
    Keeps (·.remove dir) (t.runSuite m dir suite) := by
  have he := h.execute dir t.timeout (t.host ++ [suite, dir.text])
  refine Keeps.bind he fun result => ?_
  cases result <;> exact .pure _

theorem Contained.test (h : m.Contained) (t : Testing) (dir : Location) :
    Keeps (·.remove dir) (t.test m dir) :=
  (Keeps.mapM (h.runSuite t dir) t.suites).bind fun _ => .pure _

end Machine

end CommitMarking
