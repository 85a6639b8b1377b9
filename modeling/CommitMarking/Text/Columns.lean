namespace CommitMarking.Text

def defaultWidth : Nat := 80

def fill (c : Char) (n : Nat) : String := String.ofList (List.replicate n c)

/-- The two texts at the two ends of a line. A space stays on either side of the padding, so a line
that does not fit overflows. -/
def line (left : String) (padding : Char) (right : String) (width : Nat) : String :=
  left ++ " " ++ fill padding (width - (left.length + right.length + 2)) ++ " " ++ right

def rule (c : Char) (width : Nat) : String := fill c width

def heading (title : String) (width : Nat) : String := rule '-' width ++ "\n" ++ title ++ ":\n\n"

def joinLines (parts : List String) : String := "\n".intercalate (parts.filter (· ≠ ""))

theorem length_line (left : String) (padding : Char) (right : String) (width : Nat) :
    (line left padding right width).length = max width (left.length + right.length + 2) := by
  simp only [line, fill, String.length_append, String.length_ofList, List.length_replicate]
  have : " ".length = 1 := rfl
  omega

end CommitMarking.Text
