import CommitMarking.FileSystem.Tree

namespace CommitMarking

structure Call where
  program : String
  args : List String
  dir : Location
  deriving DecidableEq, Repr

/-- What an evaluation changes: the file system, the programs started so far, the names that tasks
left behind and those that scratch directories were given, all oldest first. -/
structure World where
  files : FileTree
  calls : List Call
  trace : List String
  made : List String
  deriving DecidableEq, Repr

def World.fresh (files : FileTree) : World := ⟨files, [], [], []⟩

@[simp] theorem World.files_fresh (files : FileTree) : (World.fresh files).files = files := rfl

/-- The directory that scratch directories are made in, and how a name is found for one more. -/
structure Scratch where
  parent : Location
  choose : List String → String
  choose_not_mem : ∀ taken, choose taken ∉ taken

namespace Scratch

def numbered (parent : Location) (stem : String) : Scratch :=
  ⟨parent, FileTree.freshNumbered stem, FileTree.freshNumbered_not_mem stem⟩

/-- A name that no scratch directory had before and nothing has now. -/
def name (s : Scratch) (w : World) : String := s.choose (w.made ++ w.files.names s.parent)

theorem name_not_mem_names (s : Scratch) (w : World) : s.name w ∉ w.files.names s.parent :=
  fun h => s.choose_not_mem _ (List.mem_append_right _ h)

theorem name_not_mem_made (s : Scratch) (w : World) : s.name w ∉ w.made :=
  fun h => s.choose_not_mem _ (List.mem_append_left _ h)

def directory (s : Scratch) (w : World) : Location := s.parent ++ [s.name w]

def opened (s : Scratch) (w : World) : World :=
  { w with files := w.files.put (s.directory w) .directory, made := w.made ++ [s.name w] }

@[simp] theorem calls_opened (s : Scratch) (w : World) : (s.opened w).calls = w.calls := rfl

@[simp] theorem trace_opened (s : Scratch) (w : World) : (s.opened w).trace = w.trace := rfl

end Scratch

section Results

variable {ε δ α : Type} (f : ε → δ)

@[simp] theorem mapError_ok (a : α) : (Except.ok a : Except ε α).mapError f = .ok a := rfl

@[simp] theorem mapError_error (e : ε) :
    (Except.error e : Except ε α).mapError f = .error (f e) := rfl

variable {f}

theorem of_mapError_ok {r : Except ε α} {a : α} (h : r.mapError f = .ok a) : r = .ok a := by
  cases r with
  | error e => cases h
  | ok b => cases h; rfl

theorem exists_of_bind_ok {β : Type} {r : Except ε α} {next : α → Except ε β} {b : β}
    (h : (r >>= next) = .ok b) : ∃ a, r = .ok a ∧ next a = .ok b := by
  cases r with
  | error e => cases h
  | ok a => exact ⟨a, rfl, h⟩

end Results

/-- An action on the world that may fail. What it did before it failed is done. -/
abbrev Act (ε : Type) : Type → Type := ExceptT ε (StateM World)

namespace Act

def run {ε α : Type} (act : Act ε α) (w : World) : Except ε α × World := act w

def onFiles {ε α : Type} (f : FileTree → Except ε α × FileTree) : Act ε α := fun w =>
  let (result, files) := f w.files
  (result, { w with files })

def mapError {ε δ α : Type} (f : ε → δ) (act : Act ε α) : Act δ α := fun w =>
  let (result, w) := act w
  (result.mapError f, w)

def lift {ε α : Type} : Except ε α → Act ε α
  | .ok a => pure a
  | .error e => throw e

section Run

variable {ε α β : Type} (w : World)

@[simp] theorem run_pure (a : α) : (pure a : Act ε α).run w = (.ok a, w) := rfl

@[simp] theorem run_throw (e : ε) : (throw e : Act ε α).run w = (.error e, w) := rfl

theorem run_bind (act : Act ε α) (f : α → Act ε β) :
    (act >>= f).run w =
      match act.run w with
      | (.ok a, v) => (f a).run v
      | (.error e, v) => (.error e, v) := by
  unfold Act.run
  simp only [bind, ExceptT.bind, ExceptT.mk, StateT.bind]
  rcases act w with ⟨_ | _, v⟩ <;> rfl

theorem exists_of_run_bind {act : Act ε α} {next : α → Act ε β} {w v : World} {b : β}
    (h : (act >>= next).run w = (.ok b, v)) :
    ∃ a u, act.run w = (.ok a, u) ∧ (next a).run u = (.ok b, v) := by
  rw [run_bind] at h
  rcases hr : act.run w with ⟨e | a, u⟩
  · rw [hr] at h
    cases h
  · rw [hr] at h
    exact ⟨a, u, rfl, h⟩

theorem run_map (f : α → β) (act : Act ε α) :
    (f <$> act).run w = ((act.run w).1.map f, (act.run w).2) := by
  rw [map_eq_pure_bind, run_bind]
  rcases act.run w with ⟨_ | _, v⟩ <;> rfl

theorem run_run_bind (act : Act ε α) (next : Except ε α → StateM World β) :
    StateT.run (do next (← act.run) : StateM World β) w = (next (act.run w).1).run (act.run w).2 :=
  rfl

@[simp] theorem run_lift (r : Except ε α) : (lift r).run w = (r, w) := by
  cases r <;> rfl

@[simp] theorem run_mapError {δ : Type} (f : ε → δ) (act : Act ε α) :
    (act.mapError f).run w = ((act.run w).1.mapError f, (act.run w).2) := rfl

@[simp] theorem run_onFiles (f : FileTree → Except ε α × FileTree) :
    (onFiles f).run w = ((f w.files).1, { w with files := (f w.files).2 }) := rfl

end Run

end Act

namespace World

def record (name : String) : StateM World Unit :=
  modify fun w => { w with trace := w.trace ++ [name] }

def log (call : Call) : StateM World Unit :=
  modify fun w => { w with calls := w.calls ++ [call] }

/-- Runs an action in a new scratch directory, which is gone afterwards however the action ended. -/
def inScratch {ε α : Type} (s : Scratch) (act : Location → Act ε α) : Act ε α := fun w =>
  let dir := s.directory w
  let (result, w) := act dir (s.opened w)
  (result, { w with files := w.files.remove dir })

theorem run_inScratch {ε α : Type} (s : Scratch) (act : Location → Act ε α) (w : World) :
    (inScratch s act).run w =
      let dir := s.directory w
      let after := (act dir).run (s.opened w)
      (after.1, { after.2 with files := after.2.files.remove dir }) := rfl

end World

end CommitMarking
