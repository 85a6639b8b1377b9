import CommitMarking.Compiler
import CommitMarking.Expr
import CommitMarking.Testing
import CommitMarking.Proofs.FileSystem.Placing

namespace CommitMarking

namespace FileTree

variable {dir : Location} {path : String}

/-- All but what stands strictly below a directory. -/
def around (dir : Location) (t : FileTree) : FileTree × Option Node := (t.remove dir, t.find? dir)

theorem around_store (hi : (Route.ofText path).inside = true) (t : FileTree) (content : Bytes) :
    (t.store dir path content).2.around dir = t.around dir := by
  unfold store
  cases hw : t.write dir path content with
  | error e => rfl
  | ok u =>
      obtain ⟨hne, -, rfl⟩ := exists_put_of_write hi hw
      rw [around, around, remove_put (List.prefix_append _ _), find?_put (by simp [hne]),
        if_neg (by simpa using hne)]

theorem around_place (hi : (Route.ofText path).inside = true) (t : FileTree) (content : Bytes) :
    (t.place dir path content).2.around dir = t.around dir := by
  refine Prod.ext (remove_place hi t content) (Decidable.byContradiction fun hne => ?_)
  obtain ⟨steps, hsteps, hdir⟩ := (placed_place hi t dir content).exists_eq_append_of_ne hne
  exact hsteps (List.self_eq_append_right.1 hdir)

end FileTree

def Leaves {α β : Type} (view : FileTree → β) (act : StateM World α) : Prop :=
  ∀ w, view (act.run w).2.files = view w.files

namespace Leaves

variable {α β γ : Type} {view : FileTree → γ}

theorem pure (a : α) : Leaves view (Pure.pure a) := fun _ => rfl

theorem bind {act : StateM World α} {next : α → StateM World β} (h : Leaves view act)
    (hn : ∀ a, Leaves view (next a)) : Leaves view (act >>= next) := fun w =>
  (hn _ _).trans (h w)

theorem map {act : StateM World α} (f : α → β) (h : Leaves view act) : Leaves view (f <$> act) := by
  rw [map_eq_pure_bind]
  exact h.bind fun a => pure (f a)

theorem mapM {act : α → StateM World β} (h : ∀ a, Leaves view (act a)) (as : List α) :
    Leaves view (as.mapM act) := by
  induction as with
  | nil => exact pure []
  | cons a as ih =>
      rw [List.mapM_cons]
      exact (h a).bind fun b => ih.bind fun bs => pure (b :: bs)

end Leaves

abbrev Act.Leaves {ε α β : Type} (view : FileTree → β) (act : Act ε α) : Prop :=
  CommitMarking.Leaves view (ExceptT.run act)

namespace Act.Leaves

variable {ε δ α β γ : Type} {view : FileTree → γ}

theorem pure (a : α) : Leaves view (Pure.pure a : Act ε α) := CommitMarking.Leaves.pure _

theorem throw (e : ε) : Leaves view (MonadExcept.throw e : Act ε α) := CommitMarking.Leaves.pure _

theorem bind {act : Act ε α} {next : α → Act ε β} (h : Leaves view act)
    (hn : ∀ a, Leaves view (next a)) : Leaves view (act >>= next) := by
  rw [Leaves, ExceptT.run_bind]
  refine CommitMarking.Leaves.bind h fun result => ?_
  cases result with
  | ok a => exact hn a
  | error e => exact CommitMarking.Leaves.pure _

theorem map {act : Act ε α} (f : α → β) (h : Leaves view act) : Leaves view (f <$> act) := by
  rw [map_eq_pure_bind]
  exact h.bind fun a => pure (f a)

theorem mapM {act : α → Act ε β} (h : ∀ a, Leaves view (act a)) (as : List α) :
    Leaves view (as.mapM act) := by
  induction as with
  | nil => exact pure []
  | cons a as ih =>
      rw [List.mapM_cons]
      exact (h a).bind fun b => ih.bind fun bs => pure (b :: bs)

theorem monadLift {act : StateM World α} (h : CommitMarking.Leaves view act) :
    Leaves view (liftM act : Act ε α) := h.map Except.ok

theorem get_bind {next : World → Act ε α} (hn : ∀ w, Leaves view (next w)) :
    Leaves view (get >>= next) := fun w => hn w w

theorem lift_bind {result : Except ε α} {next : α → Act ε β}
    (h : ∀ a, result = .ok a → Leaves view (next a)) : Leaves view (Act.lift result >>= next) := by
  cases result with
  | ok a => exact h a rfl
  | error e => exact throw e

theorem mapError (f : ε → δ) {act : Act ε α} (h : Leaves view act) :
    Leaves view (Act.mapError f act) := h

theorem onFiles {f : FileTree → Except ε α × FileTree} (h : ∀ t, view (f t).2 = view t) :
    Leaves view (Act.onFiles f) := fun w => h w.files

end Act.Leaves

theorem checkout_leaves (dir : Location) (keep : Entry → Bool) (entries : List Entry) :
    Act.Leaves (·.around dir) (checkout dir keep entries) := by
  refine Act.Leaves.mapM (fun e => ?_) _
  unfold checkoutEntry
  cases hi : (Route.ofText e.path).inside with
  | false => exact Act.Leaves.throw _
  | true =>
      refine Act.Leaves.bind (Act.Leaves.mapError _ ?_) fun _ => Act.Leaves.pure _
      exact Act.Leaves.onFiles fun t => FileTree.around_place hi t e.after

namespace Machine

/-- The programs that can do more than write change nothing but what stands below the directory that
they are started in. -/
def Confined (m : Machine) : Prop :=
  ∀ r ∈ m.residents, ∀ limit args dir, Leaves (·.around dir) (r.run limit args dir)

variable {m : Machine}

theorem Confined.launch_leaves (h : m.Confined) (limit : Option Nat) (c : Call) :
    Leaves (·.around c.dir) (m.launch limit c) := by
  unfold launch
  cases hr : m.resident? c.program with
  | some r => exact h r (List.mem_of_find?_eq_some hr) limit c.args c.dir
  | none => exact fun _ => rfl

theorem Confined.start_leaves (h : m.Confined) (dir : Location) (limit : Option Nat)
    (group : ProcessGroup) (program : String) (args : List String) :
    Act.Leaves (·.around dir) (m.start (.ok dir) limit group program args) := by
  refine Act.Leaves.get_bind fun w => Act.Leaves.lift_bind fun call hcall => ?_
  obtain ⟨l, hl, rfl⟩ := admission_ok hcall
  cases hl
  exact Act.Leaves.bind (fun _ => rfl) fun _ =>
    (Act.Leaves.monadLift (h.launch_leaves limit ⟨program, args, dir⟩)).bind fun _ => .pure _

theorem Confined.execute_leaves (h : m.Confined) (dir : Location) (timeout : Nat)
    (command : List String) : Act.Leaves (·.around dir) (m.execute (.ok dir) timeout command) := by
  unfold execute executeWith
  split
  · exact Act.Leaves.throw _
  · cases command with
    | nil => exact Act.Leaves.throw _
    | cons program args => exact (h.start_leaves dir _ .own program args).mapError _

theorem Confined.build_leaves (h : m.Confined) (c : Compiler) (commit : Commit) (dir : Location) :
    Act.Leaves (·.around dir) (c.build m commit dir) :=
  (checkout_leaves dir c.accepts commit.entries).bind fun files =>
    (h.execute_leaves dir c.timeout (c.command dir.text files)).bind fun _ => .pure _

theorem Confined.test_leaves (h : m.Confined) (t : Testing) (dir : Location) :
    Leaves (·.around dir) (t.test m dir) := by
  refine (Leaves.mapM (fun suite => ?_) t.suites).bind fun _ => .pure _
  refine Leaves.bind (h.execute_leaves dir t.timeout (t.host ++ [suite, dir.text])) fun result => ?_
  cases result <;> exact .pure _

end Machine

namespace Runner

variable {m : Machine} {k : Kind} {r : Runner k}

/-- The runners that compile and test, and all others that change nothing but what stands below the
directory that they are given. -/
inductive Confined (m : Machine) : {k : Kind} → Runner k → Prop
  | compiler (c : Compiler) : Confined m c.runner
  | testing (t : Testing) : Confined m t.runner
  | other {k : Kind} {r : Runner k} (prepare : ∀ dir, Act.Leaves (·.around dir) (r.prepare m dir))
      (run : ∀ commit dir, Act.Leaves (·.around dir) (r.run m commit dir)) : Confined m r

theorem Confined.prepare_leaves (h : r.Confined m) (dir : Location) :
    Act.Leaves (·.around dir) (r.prepare m dir) := by
  cases h with
  | compiler c => exact Act.Leaves.pure ()
  | testing t => exact Act.Leaves.pure ()
  | other prepare _ => exact prepare dir

theorem Confined.run_leaves (hm : m.Confined) (h : r.Confined m) (commit : Commit)
    (dir : Location) : Act.Leaves (·.around dir) (r.run m commit dir) := by
  cases h with
  | compiler c => exact ((hm.build_leaves c commit dir).mapError MarkError.process).map _
  | testing t => exact (Act.Leaves.monadLift (hm.test_leaves t dir)).map _
  | other _ run => exact run commit dir

theorem touch_confined (m : Machine) (name : String) {file : String}
    (hi : (Route.ofText file).inside = true) : (touch name file).Confined m := by
  refine .other (fun dir => Act.Leaves.pure ()) fun commit dir => ?_
  refine Act.Leaves.get_bind fun w => ?_
  refine Act.Leaves.bind (Act.Leaves.mapError _ ?_) fun _ => .pure _
  exact Act.Leaves.onFiles fun t => FileTree.around_store hi t []

end Runner

abbrev Expr.Confined (m : Machine) {k : Kind} (e : Expr k) : Prop :=
  e.AllRunners (Runner.Confined m)

abbrev Generator.Confined (m : Machine) {k : Kind} (g : Generator k) : Prop :=
  g.AllRunners (Runner.Confined m)

end CommitMarking
