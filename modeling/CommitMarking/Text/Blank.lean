namespace CommitMarking.Text

/-- The characters with the property White_Space. -/
def isBlank (c : Char) : Bool :=
  ('\t' ≤ c && c ≤ '\r') || c == ' ' || c == '\u0085' || c == '\u00A0' || c == '\u1680' ||
    ('\u2000' ≤ c && c ≤ '\u200A') || c == '\u2028' || c == '\u2029' || c == '\u202F' ||
    c == '\u205F' || c == '\u3000'

def dropBlank (cs : List Char) : List Char := cs.dropWhile isBlank

def dropBlankEnd (cs : List Char) : List Char := (dropBlank cs.reverse).reverse

def trimEnd (s : String) : String := String.ofList (dropBlankEnd s.toList)

def trim (s : String) : String := String.ofList (dropBlankEnd (dropBlank s.toList))

def blank (s : String) : Bool := s.toList.all isBlank

def dropReturn (line : List Char) : List Char :=
  if line.getLast? = some '\r' then line.dropLast else line

/-- The lines of a text. A newline ends a line, so none follows a last newline, and an unfinished
last line keeps its carriage return. -/
def charLines (cs : List Char) : List (List Char) :=
  let pieces := cs.splitOn '\n'
  let unfinished := (pieces.getLast?.filter (· ≠ [])).toList
  pieces.dropLast.map dropReturn ++ unfinished

def lines (s : String) : List String := (charLines s.toList).map String.ofList

end CommitMarking.Text
