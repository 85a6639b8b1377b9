import CommitMarking.Proofs.Suite.Verdict
import Mathlib.Data.List.Forall2

namespace CommitMarking

open Text

namespace SuiteOutcome

variable {policy : EmptySuite} {cases : List CaseOutcome}

def Tells (width : Nat) (c : CaseOutcome) (row : String) : Prop :=
  ∃ message, c.failure = some message ∧ row = failedRow c.name width ++ message ++ "\n"

end SuiteOutcome

namespace Testing

open SuiteOutcome

variable (t : Testing) {outcomes : List (String × SuiteOutcome)}

end Testing

end CommitMarking
