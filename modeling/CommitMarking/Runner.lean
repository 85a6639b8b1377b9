import CommitMarking.Account
import CommitMarking.Program

namespace CommitMarking

structure Verdict where
  holds : Bool
  provenance : Nat → String

def Evaluation.ofVerdict (v : Verdict) : Evaluation .bool := ⟨v.holds, .leaf (fun _ => "") v.provenance⟩

/-- Something to do for a commit in a directory of its own, which it is made ready for before
anything is done there. -/
structure Runner (k : Kind) where
  name : String
  prepare : Machine → Location → Act MarkError Unit := fun _ _ => pure ()
  run : Machine → Commit → Location → Act MarkError (Evaluation k)

namespace Runner

def touch (name file : String) : Runner .bool where
  name
  run _ _ dir := do
    let found := (← get).files.exists? dir file
    Act.mapError .io (Act.onFiles (·.store dir file []))
    return .ofVerdict ⟨!found, fun _ => ""⟩

end Runner

end CommitMarking
