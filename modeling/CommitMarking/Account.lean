import CommitMarking.Text.Columns
import CommitMarking.Value

namespace CommitMarking

/-- What an evaluation says about itself: a summary and a provenance, for each width. -/
inductive Account
  | leaf (summary provenance : Nat → String)
  | quiet (inner : Account)
  | seq (first second : Account)

namespace Account

def line (text : String) : Account := leaf (fun _ => text) fun _ => ""

def nothing : Account := line ""

def summary : Account → Nat → String
  | leaf summary _ => summary
  | quiet _ => fun _ => ""
  | seq first second => fun width => Text.joinLines [first.summary width, second.summary width]

def provenance : Account → Nat → String
  | leaf _ provenance => provenance
  | quiet inner => inner.provenance
  | seq first second => fun width => first.provenance width ++ second.provenance width

instance : Append Account := ⟨seq⟩

def operation (text : String) (lhs rhs : Account) : Account := quiet lhs ++ quiet rhs ++ line text

def binding (text : String) (init body : Account) : Account := quiet init ++ line text ++ body

def answer (name : String) (value : Bool) : Account :=
  line (name ++ "? " ++ if value then "Yes." else "No.")

section Provenance

variable (first second : Account) (text : String) (width : Nat)

@[simp] theorem provenance_append :
    (first ++ second).provenance width = first.provenance width ++ second.provenance width := rfl

@[simp] theorem provenance_quiet : (quiet first).provenance width = first.provenance width := rfl

@[simp] theorem provenance_line : (line text).provenance width = "" := rfl

@[simp] theorem provenance_nothing : nothing.provenance width = "" := rfl

@[simp] theorem provenance_answer (value : Bool) : (answer text value).provenance width = "" := rfl

@[simp] theorem provenance_operation :
    (operation text first second).provenance width =
      first.provenance width ++ second.provenance width := by
  simp [operation]

@[simp] theorem provenance_binding :
    (binding text first second).provenance width =
      first.provenance width ++ second.provenance width := by
  simp [binding]

end Provenance

end Account

structure Evaluation (k : Kind) where
  value : k.Carrier
  account : Account

end CommitMarking
