namespace CommitMarking.Toml

/-- How a table came to be: written in braces, under its own header, on the way to the header of
another table, or on the way of a dotted key. -/
inductive Origin
  | inline
  | header
  | passed
  | dotted
  deriving DecidableEq, Repr

/-- A value of a document. Floats, dates and times are only known to be well formed; `tables` is a
list of tables that grows by headers, the newest in front. -/
inductive Datum
  | text (s : String)
  | integer (n : Int)
  | truth (b : Bool)
  | float
  | time
  | list (items : List Datum)
  | table (origin : Origin) (fields : List (String × Datum))
  | tables (items : List (List (String × Datum)))

structure Table where
  origin : Origin
  fields : List (String × Datum)

namespace Table

def value (t : Table) : Datum := .table t.origin t.fields

def setField (key : String) (v : Datum) : List (String × Datum) → List (String × Datum)
  | [] => [(key, v)]
  | f :: fs => if f.1 = key then (key, v) :: fs else f :: setField key v fs

def set (t : Table) (key : String) (v : Datum) : Table :=
  { t with fields := setField key v t.fields }

/-- Changes the table that a path leads to and makes the missing ones on the way. A path goes on in
the newest of a list of tables. What stands in braces is closed, and a dotted key does not enter a
table that has a header. -/
def update (dotted : Bool) (f : Table → Option Table) : List String → Table → Option Table
  | [], t => f t
  | key :: path, t =>
      match t.fields.lookup key with
      | none => do
          let child ← update dotted f path ⟨if dotted then .dotted else .passed, []⟩
          some (t.set key child.value)
      | some (.table origin fields) =>
          if origin = .inline ∨ (dotted ∧ origin = .header) then none
          else do
            let child ← update dotted f path ⟨origin, fields⟩
            some (t.set key child.value)
      | some (.tables (newest :: older)) => do
          let child ← update dotted f path ⟨.header, newest⟩
          some (t.set key (.tables (child.fields :: older)))
      | some _ => none

def add (dotted : Bool) (key : String) (v : Datum) (t : Table) : Option Table :=
  if dotted ≠ decide (t.origin = .dotted) then none
  else match t.fields.lookup key with
    | none => some (t.set key v)
    | some _ => none

def insert (t : Table) (key : List String) (v : Datum) : Option Table :=
  match key.getLast? with
  | none => none
  | some last => t.update true (add (decide (key.dropLast ≠ [])) last v) key.dropLast

def openTable (key : String) (t : Table) : Option Table :=
  match t.fields.lookup key with
  | none => some (t.set key (.table .header []))
  | some (.table .passed fields) => some (t.set key (.table .header fields))
  | some _ => none

def openItem (key : String) (t : Table) : Option Table :=
  match t.fields.lookup key with
  | none => some (t.set key (.tables [[]]))
  | some (.tables items) => some (t.set key (.tables ([] :: items)))
  | some _ => none

def openAt (step : String → Table → Option Table) (path : List String) (t : Table) :
    Option Table :=
  match path.getLast? with
  | none => none
  | some last => t.update false (step last) path.dropLast

end Table

end CommitMarking.Toml
