namespace CommitMarking

abbrev Location := List String

def Location.text (l : Location) : String := "/" ++ "/".intercalate l

/-- A path as a program writes it: its segments without the empty ones, and what the slashes at its
ends say. -/
structure Route where
  rooted : Bool
  steps : List String
  slash : Bool
  deriving DecidableEq, Repr

namespace Route

def ofText (path : String) : Route :=
  let cs := path.toList
  let steps := (cs.splitOn '/').filter (· ≠ []) |>.map String.ofList
  ⟨cs.head? = some '/', steps, steps ≠ [] && cs.getLast? = some '/'⟩

/-- A route below the directory it starts from: nothing in it climbs, and it does not begin with the
directory itself. A single dot further on is passed over. -/
def inside (r : Route) : Bool :=
  !r.rooted && r.steps ≠ [] && r.steps.head? ≠ some "." && !r.steps.contains ".."

def names (r : Route) : List String := r.steps.filter (· ≠ ".")

def parentText (path : String) : String :=
  let passed (segment : List Char) : Bool := segment = [] || segment = ['.']
  let above := ((path.toList.splitOn '/').reverse.dropWhile passed).drop 1
  String.ofList (['/'].intercalate (above.dropWhile passed).reverse)

end Route

namespace Location

theorem text_append {l : Location} (h : l ≠ []) (name : String) :
    (l ++ [name]).text = l.text ++ "/" ++ name := by
  rw [text, String.intercalate_append_of_ne_nil h (List.cons_ne_nil name []), text,
    String.intercalate_singleton]
  simp [String.append_assoc]

def join (l : Location) (path : String) : String :=
  if (Route.ofText path).rooted then path else text (l ++ [path])

theorem join_of_ne_nil {l : Location} {path : String} (h : l ≠ [])
    (hr : (Route.ofText path).rooted = false) : l.join path = l.text ++ "/" ++ path := by
  rw [join, hr, if_neg Bool.false_ne_true, text_append h]

end Location

end CommitMarking
