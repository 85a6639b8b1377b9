import CommitMarking.Proofs.History.Steps
import CommitMarking.Proofs.Text.Lines

namespace CommitMarking

def RawDiff.records (raw : Bytes) : List RawRecord :=
  match records? (fields raw) with
  | .ok records => records.filter (!·.isLink)
  | .error _ => []

namespace Repository

open Text

def listArgs : List String := ["rev-list", "--reverse", "--first-parent", "HEAD"]

def logArgs (format id : String) : List String := ["log", "-1", format, id]

def blobArgs (id : String) : List String := ["cat-file", "blob", id]

section Steps

variable (r : Repository) (t : FileTree)

def blobSteps (id : String) : List Step := if id = nullId then [] else [.ask (blobArgs id)]

def diffSteps (parent : Option String) (id : String) : List Step :=
  let raw := r.output t (diffArgs parent id)
  .ask (diffArgs parent id) :: .read raw ::
    (RawDiff.records raw).flatMap fun c => blobSteps c.oldId ++ blobSteps c.newId

def commitSteps (parent : Option String) (id : String) : List Step :=
  .ask (logArgs "--format=%s" id) :: .ask (logArgs "--format=%ct" id) :: r.diffSteps t parent id

def sequenceSteps : Option String → List String → List Step
  | _, [] => []
  | parent, id :: ids => r.commitSteps t parent id ++ sequenceSteps (some id) ids

def listed : List String := ids (Utf8.lossy (r.output t listArgs))

/-- All that loading the history does if nothing fails. What comes after a step that fails is never
taken. -/
def steps : List Step := .ask listArgs :: r.sequenceSteps t none (r.listed t)

def blobContent (id : String) : Bytes := if id = nullId then [] else r.output t (blobArgs id)

def entryOf (c : RawRecord) : Entry := ⟨c.path, r.blobContent t c.oldId, r.blobContent t c.newId⟩

def entriesOf (parent : Option String) (id : String) : List Entry :=
  (RawDiff.records (r.output t (diffArgs parent id))).map (r.entryOf t)

def logText (format id : String) : String := trim (Utf8.lossy (r.output t (logArgs format id)))

def commitOf (parent : Option String) (id : String) : Commit where
  id := id
  title := r.logText t "--format=%s" id
  parent := parent
  time := time? (r.logText t "--format=%ct" id)
  entries := r.entriesOf t parent id

def commitsOf : Option String → List String → List Commit
  | _, [] => []
  | parent, id :: ids => r.commitOf t parent id :: commitsOf (some id) ids

end Steps

theorem ids_ofList (cs : List Char) :
    ids (String.ofList cs) = (lineTexts cs).map String.ofList := by
  have hne (xs : List Char) : decide (String.ofList xs ≠ "") = decide (xs ≠ []) := by
    simp [← String.ofList_nil]
  have htrim : trim ∘ String.ofList = String.ofList ∘ stripped := funext trim_ofList
  rw [ids, lines, String.toList_ofList, List.map_map, htrim, ← List.map_map, List.filter_map,
    lineTexts]
  exact congrArg (List.map String.ofList) (List.filter_congr fun xs _ => hne xs)

theorem ids_trim (s : String) : ids (trim s) = ids s := by
  rw [← s.ofList_toList, trim_ofList, ids_ofList, ids_ofList, lineTexts_stripped]

section Links

variable (r : Repository) (t : FileTree)

theorem ids_commitsOf (parent : Option String) (names : List String) :
    (r.commitsOf t parent names).map (·.id) = names := by
  induction names generalizing parent with
  | nil => rfl
  | cons name names ih => exact congrArg (name :: ·) (ih (some name))

theorem parents_commitsOf (parent : Option String) (names : List String) :
    (r.commitsOf t parent names).map (·.parent) =
      (parent :: (r.commitsOf t parent names).map fun c => some c.id).dropLast := by
  induction names generalizing parent with
  | nil => rfl
  | cons name names ih =>
      rw [commitsOf, List.map_cons, ih (some name), List.map_cons, List.dropLast_cons_cons]
      rfl

theorem isFirst_iff_of_parents {cs : List Commit}
    (h : cs.map (·.parent) = (none :: cs.map fun c => some c.id).dropLast) {i : Nat} {c : Commit}
    (hc : cs[i]? = some c) : c.isFirst ↔ i = 0 := by
  have hi : i < cs.length := (List.getElem?_eq_some_iff.1 hc).1
  have hp := congrArg (·[i]?) h
  simp only [List.getElem?_map, hc, Option.map_some, List.getElem?_dropLast, List.length_cons,
    List.length_map, Nat.add_sub_cancel, if_pos hi] at hp
  cases i with
  | zero => simpa [Commit.isFirst] using hp
  | succ i =>
      obtain ⟨d, hd⟩ : ∃ d, cs[i]? = some d := ⟨cs[i], List.getElem?_eq_getElem (by omega)⟩
      simp only [List.getElem?_cons_succ, List.getElem?_map, hd, Option.map_some,
        Option.some.injEq] at hp
      simp [Commit.isFirst, hp]

end Links

section Taking

variable {r : Repository} {t : FileTree} (h : r.machine.resident? "git" = none)

theorem read_takes (raw : Bytes) :
    Takes r t [.read raw] (Act.lift (RawDiff.parse? raw))
      ((RawDiff.records raw).map RawRecord.change) := by
  rintro w rfl
  rw [Act.run_lift, RawDiff.records]
  cases hr : RawDiff.records? (RawDiff.fields raw) <;>
    simp [Step.error?, Step.started, taken, RawDiff.parse?, hr, Except.map]

include h

theorem gitText_takes (args : List String) :
    Takes r t [.ask args] (r.gitText args) (trim (Utf8.lossy (r.output t args))) :=
  (git_takes h args).map fun out => trim (Utf8.lossy out)

theorem blob_takes (name : String) :
    Takes r t (blobSteps name) (r.blob name) (r.blobContent t name) := by
  unfold blob blobSteps blobContent
  split
  · exact Takes.pure []
  · exact git_takes h _

theorem entry_takes (c : RawRecord) :
    Takes r t (blobSteps c.oldId ++ blobSteps c.newId) (r.entry c.change) (r.entryOf t c) :=
  (blob_takes h c.oldId).bind ((blob_takes h c.newId).map (Entry.mk c.path (r.blobContent t c.oldId)))

theorem entries_takes (parent : Option String) (name : String) :
    Takes r t (r.diffSteps t parent name) (r.entries parent name) (r.entriesOf t parent name) := by
  unfold entries diffSteps
  refine (git_takes h _).bind_cons ((read_takes _).bind_cons ?_)
  rw [List.mapM_map, entriesOf]
  exact Takes.mapM (entry_takes h) _

theorem commit_takes (parent : Option String) (name : String) :
    Takes r t (r.commitSteps t parent name) (r.commit parent name) (r.commitOf t parent name) := by
  unfold commit commitSteps
  refine (gitText_takes h _).bind_cons ((gitText_takes h _).bind_cons ?_)
  exact (entries_takes h parent name).map (Commit.mk name _ parent _)

theorem commits_takes (parent : Option String) (names : List String) :
    Takes r t (r.sequenceSteps t parent names) (r.commits parent names)
      (r.commitsOf t parent names) := by
  induction names generalizing parent with
  | nil => exact Takes.pure []
  | cons name names ih =>
      exact (commit_takes h parent name).bind ((ih (some name)).map fun cs =>
        r.commitOf t parent name :: cs)

theorem history_takes :
    Takes r t (r.steps t) r.history (r.commitsOf t none (r.listed t)) := by
  unfold history steps
  refine (gitText_takes h _).bind_cons ?_
  rw [ids_trim]
  exact commits_takes h none _

end Taking

/-- Loading a history ends with the error of the first step that fails, after which git is not asked
again. If none fails, there is a commit for each line of the listing that is not blank, in their
order; the first commit has no parent, and that of any other is the one before it. -/
theorem history_run_steps {r : Repository} (h : r.machine.resident? "git" = none) (w : World) :
    let run := r.history.run w
    let steps := r.steps w.files
    run.2 = { w with
        calls := w.calls ++ (r.taken w.files steps).flatMap (Step.started r w.files) } ∧
      match steps.findSome? (Step.error? r w.files) with
      | some e => run.1 = .error e
      | none => ∃ cs, run.1 = .ok cs ∧
          cs.map (·.id) = ids (Utf8.lossy (r.output w.files listArgs)) ∧
          cs.map (·.parent) = (none :: cs.map fun c => some c.id).dropLast ∧
          ∀ i c, cs[i]? = some c → (c.isFirst ↔ i = 0) := by
  intro run steps
  have hrun : run = _ := history_takes h w rfl
  rw [hrun]
  refine ⟨rfl, ?_⟩
  cases steps.findSome? (Step.error? r w.files) with
  | some e => rfl
  | none =>
      have hparents := r.parents_commitsOf w.files none (r.listed w.files)
      exact ⟨_, rfl, r.ids_commitsOf w.files none _, hparents, fun i c hc =>
        isFirst_iff_of_parents hparents hc⟩

/-- The second of three commits changes a file whose new content git does not have. -/
theorem history_run_steps_failing :
    let answers (args out : String) : Rule :=
      { Rule.unmatched "git" with
        args := some args, stdout := Utf8.encode out, stderr := [], ending := .exit 0 }
    let r : Repository := ⟨.ofRules [answers "rev-list --reverse --first-parent HEAD" " c1\n\n\tc2\r\nc3",
        answers "log -1 --format=%s c1" "one\n", answers "log -1 --format=%ct c1" "0\n",
        answers "diff-tree -r -z --no-renames --no-commit-id --root c1" "",
        answers "log -1 --format=%s c2" "two\n", answers "log -1 --format=%ct c2" "never\n",
        answers "diff-tree -r -z --no-renames --no-commit-id c1 c2"
          ":100644 100644 b1 b2 M\x00a.txt\x00",
        answers "cat-file blob b1" "old"], .ok []⟩
    let run := r.history.run (.fresh ⟨[]⟩)
    r.machine.resident? "git" = none ∧
      run.1 = .error (.failed ["cat-file", "blob", "b2"] "stub: no rule") ∧
      run.2.calls.map (·.args) = [listArgs, logArgs "--format=%s" "c1", logArgs "--format=%ct" "c1",
        diffArgs none "c1", logArgs "--format=%s" "c2", logArgs "--format=%ct" "c2",
        diffArgs (some "c1") "c2", blobArgs "b1", blobArgs "b2"] := by
  intro answers r run
  have h : r.machine.resident? "git" = none := rfl
  have hfirst : (r.steps ⟨[]⟩).findSome? (Step.error? r ⟨[]⟩) =
      some (.failed ["cat-file", "blob", "b2"] "stub: no rule") := by decide +kernel
  have hasked : ((r.taken ⟨[]⟩ (r.steps ⟨[]⟩)).flatMap (Step.started r ⟨[]⟩)).map (·.args) =
      [listArgs, logArgs "--format=%s" "c1", logArgs "--format=%ct" "c1", diffArgs none "c1",
        logArgs "--format=%s" "c2", logArgs "--format=%ct" "c2", diffArgs (some "c1") "c2",
        blobArgs "b1", blobArgs "b2"] := by decide +kernel
  -- from here on the answers of git do not have to be looked at again
  clear_value r
  obtain ⟨hworld, hresult⟩ := history_run_steps h (.fresh ⟨[]⟩)
  rw [World.files_fresh, hfirst] at hresult
  refine ⟨h, hresult, ?_⟩
  rw [show run.2 = _ from hworld]
  exact hasked

end Repository

end CommitMarking
