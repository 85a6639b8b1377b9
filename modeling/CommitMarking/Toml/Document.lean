import CommitMarking.Toml.Scalar

namespace CommitMarking.Toml

mutual

/-- A value inside at most `depth` lists and tables. Each call has less fuel than the one that makes
it. -/
def value? : Nat → Nat → Reader Datum
  | 0, _, _ => none
  | fuel + 1, depth, cs =>
      match cs with
      | '[' :: rest =>
          if depth ≤ 1 then none
          else (items? fuel (depth - 1) rest).map fun (vs, rest) => (.list vs, rest)
      | '\x7b' :: rest =>
          if depth ≤ 1 then none
          else match skipSpace rest with
            | '\x7d' :: rest => some (.table .inline [], rest)
            | _ => do
                let (t, rest) ← fields? fuel (depth - 1) ⟨.inline, []⟩ rest
                some (t.value, rest)
      | '"' :: _ | '\'' :: _ => (text? fuel cs).map fun (s, rest) => (.text s, rest)
      | _ => scalarValue? cs

def items? : Nat → Nat → Reader (List Datum)
  | 0, _, _ => none
  | fuel + 1, depth, cs =>
      match skipLines cs with
      | ']' :: rest => some ([], rest)
      | cs => do
          let (v, rest) ← value? fuel depth cs
          match skipLines rest with
          | ',' :: rest =>
              let (vs, rest) ← items? fuel depth rest
              some (v :: vs, rest)
          | ']' :: rest => some ([v], rest)
          | _ => none

def fields? : Nat → Nat → Table → Reader Table
  | 0, _, _, _ => none
  | fuel + 1, depth, t, cs => do
      let (key, rest) ← key? fuel cs
      match rest with
      | '=' :: rest =>
          let (v, rest) ← value? fuel depth (skipSpace rest)
          let t ← t.insert key v
          match skipSpace rest with
          | ',' :: rest => fields? fuel depth t rest
          | '\x7d' :: rest => some (t, rest)
          | _ => none
      | _ => none

end

structure State where
  root : Table
  header : List String

namespace State

def start : State := ⟨⟨.header, []⟩, []⟩

def addField (s : State) (key : List String) (v : Datum) : Option State := do
  let root ← s.root.update false (·.insert key v) s.header
  some { s with root }

def openHeader (s : State) (step : String → Table → Option Table) (path : List String) :
    Option State := do
  some ⟨← s.root.openAt step path, path⟩

end State

def header? (fuel : Nat) (s : State) : Reader State
  | '[' :: '[' :: rest => do
      let (path, rest) ← key? fuel rest
      match rest with
      | ']' :: ']' :: rest => some (← s.openHeader Table.openItem path, ← restOfLine? rest)
      | _ => none
  | '[' :: rest => do
      let (path, rest) ← key? fuel rest
      match rest with
      | ']' :: rest => some (← s.openHeader Table.openTable path, ← restOfLine? rest)
      | _ => none
  | _ => none

def field? (fuel : Nat) (s : State) : Reader State := fun cs => do
  let (key, rest) ← key? fuel cs
  match rest with
  | '=' :: rest =>
      let (v, rest) ← value? (2 * fuel) depthLimit (skipSpace rest)
      some (← s.addField key v, ← restOfLine? rest)
  | _ => none

/-- A header, a field, a comment or an empty line. The fuel is more than the characters left, and
two calls for each of them are enough. -/
def statement? (fuel : Nat) (s : State) (cs : List Char) : Option (State × List Char) :=
  match cs with
  | '#' :: _ | '\n' :: _ | '\x0d' :: _ => (restOfLine? cs).map (s, ·)
  | '[' :: _ => header? fuel s cs
  | _ => field? fuel s cs

def statements? : Nat → State → List Char → Option State
  | 0, _, _ => none
  | fuel + 1, s, cs =>
      match skipSpace cs with
      | [] => some s
      | cs => do
          let (s, rest) ← statement? (fuel + 1) s cs
          statements? fuel s rest

def read? (text : String) : Option (List (String × Datum)) :=
  let cs := match text.toList with
    | '\uFEFF' :: cs => cs
    | cs => cs
  (statements? (cs.length + 1) .start cs).map (·.root.fields)

end CommitMarking.Toml
