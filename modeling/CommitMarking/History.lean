import CommitMarking.History.RawDiff
import CommitMarking.Program
import CommitMarking.Text.Blank

namespace CommitMarking

structure Repository where
  machine : Machine
  place : Place

namespace Repository

open Text

/-- A git that never ended would be waited for without end; here it ends badly. -/
def git (r : Repository) (args : List String) : Act GitError Bytes := do
  let e ← (r.machine.start r.place none .inherit "git" args).mapError .notStarted
  if e.succeeded then return e.stdout
  else throw (.failed args (trim e.stderrText))

def gitText (r : Repository) (args : List String) : Act GitError String := do
  return trim (Utf8.lossy (← r.git args))

def isRepository (r : Repository) : StateM World Bool := do
  match ← (r.git ["rev-parse", "--is-inside-work-tree"]).run with
  | .ok _ => return true
  | .error _ => return false

def nullId : String := String.ofList (List.replicate 40 '0')

def blob (r : Repository) (id : String) : Act GitError Bytes :=
  if id = nullId then return [] else r.git ["cat-file", "blob", id]

def entry (r : Repository) (c : RawChange) : Act GitError Entry := do
  let before ← r.blob c.oldId
  let after ← r.blob c.newId
  return ⟨c.path, before, after⟩

def diffArgs (parent : Option String) (id : String) : List String :=
  ["diff-tree", "-r", "-z", "--no-renames", "--no-commit-id", parent.getD "--root", id]

def entries (r : Repository) (parent : Option String) (id : String) :
    Act GitError (List Entry) := do
  let raw ← r.git (diffArgs parent id)
  let changes ← Act.lift (RawDiff.parse? raw)
  changes.mapM r.entry

def time? (seconds : String) : Option Stamp :=
  (Decimal.int64? seconds).bind fun s => Stamp.ofSeconds? s.toInt

def commit (r : Repository) (parent : Option String) (id : String) : Act GitError Commit := do
  let title ← r.gitText ["log", "-1", "--format=%s", id]
  let seconds ← r.gitText ["log", "-1", "--format=%ct", id]
  let entries ← r.entries parent id
  return { id, title, parent, time := time? seconds, entries }

def commits (r : Repository) : Option String → List String → Act GitError (List Commit)
  | _, [] => return []
  | parent, id :: ids => do
      let c ← r.commit parent id
      let cs ← r.commits (some id) ids
      return c :: cs

def ids (listing : String) : List String := ((lines listing).map trim).filter (· ≠ "")

/-- The history of first parents that ends in the newest commit, oldest first. -/
def history (r : Repository) : Act GitError (List Commit) := do
  let listing ← r.gitText ["rev-list", "--reverse", "--first-parent", "HEAD"]
  r.commits none (ids listing)

end Repository

end CommitMarking
