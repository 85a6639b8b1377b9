import CommitMarking.Suite.Document
import CommitMarking.Suite.Report

namespace CommitMarking

namespace CaseOutcome

def failure? : Document → Option (Option String)
  | .null => some none
  | d => d.asText?.map some

/-- A case is a record, in which a missing failure is a pass, or a list of its two fields. -/
def ofDocument? : Document → Option CaseOutcome
  | .list [name, failure] => do return ⟨← name.asText?, ← failure? failure⟩
  | .record fields => do
      guard (fields.all (·.1.isSome))
      let name ← Document.field? "name" fields
      let failed ← Document.field? "failure" fields
      return ⟨← (← name).asText?, ← failure? (failed.getD .null)⟩
  | _ => none

end CaseOutcome

namespace SuiteReport

def cases? : Document → Option (List CaseOutcome)
  | .list items => items.mapM CaseOutcome.ofDocument?
  | _ => none

def ofDocument? : Document → Option SuiteReport
  | .list [suite, cases] => do return ⟨← suite.asText?, ← cases? cases⟩
  | .record fields => do
      guard (fields.all (·.1.isSome))
      let suite ← Document.field? "suite" fields
      let cases ← Document.field? "cases" fields
      return ⟨← (← suite).asText?, ← cases? (← cases)⟩
  | _ => none

def read? (s : String) : Option SuiteReport := Document.read? s.toList >>= ofDocument?

end SuiteReport

end CommitMarking
