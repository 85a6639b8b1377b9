namespace CommitMarking

/-- A JSON document as far as reports go: numbers and truth values are not told apart, and a string
that no sequence of characters spells has no text. -/
inductive Document
  | null
  | other
  | text (s : Option String)
  | list (items : List Document)
  | record (fields : List (Option String × Document))

namespace Document

def skipBlank (cs : List Char) : List Char :=
  cs.dropWhile fun c => c == ' ' || c == '\t' || c == '\n' || c == '\r'

inductive Piece
  | char (c : Char)
  | half (unit : Nat)

def Piece.ofUnit (unit : Nat) : Piece :=
  if 0xD800 ≤ unit ∧ unit ≤ 0xDFFF then .half unit else .char (Char.ofNat unit)

/-- A leading half and the trailing half right after it make a character; no other half is part of
a text. -/
def join? : List Piece → Option (List Char)
  | [] => some []
  | .char c :: ps => (join? ps).map (c :: ·)
  | .half a :: .half b :: ps =>
      if a ≤ 0xDBFF ∧ 0xDC00 ≤ b then
        (join? ps).map (Char.ofNat (0x10000 + (a - 0xD800) * 1024 + (b - 0xDC00)) :: ·)
      else none
  | .half _ :: _ => none

def hex? (c : Char) : Option Nat :=
  if '0' ≤ c ∧ c ≤ '9' then some (c.toNat - 48)
  else if 'a' ≤ c ∧ c ≤ 'f' then some (c.toNat - 87)
  else if 'A' ≤ c ∧ c ≤ 'F' then some (c.toNat - 55)
  else none

def hex4? (a b c d : Char) : Option Nat :=
  match hex? a, hex? b, hex? c, hex? d with
  | some a, some b, some c, some d => some (((a * 16 + b) * 16 + c) * 16 + d)
  | _, _, _, _ => none

def named? : Char → Option Char
  | '"' => some '"'
  | '\\' => some '\\'
  | '/' => some '/'
  | 'b' => some '\x08'
  | 'f' => some '\x0c'
  | 'n' => some '\n'
  | 'r' => some '\r'
  | 't' => some '\t'
  | _ => none

def pieces? : List Char → Option (List Piece × List Char)
  | [] => none
  | '"' :: rest => some ([], rest)
  | '\\' :: 'u' :: a :: b :: c :: d :: rest => do
      let unit ← hex4? a b c d
      let (ps, rest) ← pieces? rest
      some (.ofUnit unit :: ps, rest)
  | '\\' :: e :: rest => do
      let c ← named? e
      let (ps, rest) ← pieces? rest
      some (.char c :: ps, rest)
  | c :: rest =>
      if c.toNat < 32 ∨ c = '\\' then none
      else do
        let (ps, rest) ← pieces? rest
        some (.char c :: ps, rest)

def text? (cs : List Char) : Option (Option String × List Char) := do
  let (ps, rest) ← pieces? cs
  some ((join? ps).map String.ofList, rest)

def digits? (cs : List Char) : Option (List Char) :=
  match cs with
  | c :: rest => if c.isDigit then some (rest.dropWhile Char.isDigit) else none
  | [] => none

def exponent? : List Char → Option (List Char)
  | 'e' :: '+' :: rest | 'e' :: '-' :: rest | 'E' :: '+' :: rest | 'E' :: '-' :: rest =>
      digits? rest
  | 'e' :: rest | 'E' :: rest => digits? rest
  | rest => some rest

def fraction? : List Char → Option (List Char)
  | '.' :: rest => digits? rest >>= exponent?
  | rest => exponent? rest

def number? (cs : List Char) : Option (List Char) :=
  let unsigned := match cs with
    | '-' :: rest => rest
    | rest => rest
  match unsigned with
  | '0' :: rest => if rest.head?.any Char.isDigit then none else fraction? rest
  | rest => digits? rest >>= fraction?

mutual

/-- A value and what follows it. Each call has less fuel than the one that makes it. -/
def value? : Nat → List Char → Option (Document × List Char)
  | 0, _ => none
  | fuel + 1, cs =>
      match skipBlank cs with
      | '"' :: rest => (text? rest).map fun (s, rest) => (.text s, rest)
      | '[' :: rest =>
          match skipBlank rest with
          | ']' :: rest => some (.list [], rest)
          | rest => (items? fuel rest).map fun (vs, rest) => (.list vs, rest)
      | '\x7b' :: rest =>
          match skipBlank rest with
          | '\x7d' :: rest => some (.record [], rest)
          | rest => (fields? fuel rest).map fun (fs, rest) => (.record fs, rest)
      | 'n' :: 'u' :: 'l' :: 'l' :: rest => some (.null, rest)
      | 't' :: 'r' :: 'u' :: 'e' :: rest => some (.other, rest)
      | 'f' :: 'a' :: 'l' :: 's' :: 'e' :: rest => some (.other, rest)
      | rest => (number? rest).map fun rest => (.other, rest)

def items? : Nat → List Char → Option (List Document × List Char)
  | 0, _ => none
  | fuel + 1, cs => do
      let (v, rest) ← value? fuel cs
      match skipBlank rest with
      | ',' :: rest =>
          let (vs, rest) ← items? fuel rest
          some (v :: vs, rest)
      | ']' :: rest => some ([v], rest)
      | _ => none

def fields? : Nat → List Char → Option (List (Option String × Document) × List Char)
  | 0, _ => none
  | fuel + 1, cs =>
      match skipBlank cs with
      | '"' :: rest => do
          let (key, rest) ← text? rest
          match skipBlank rest with
          | ':' :: rest =>
              let (v, rest) ← value? fuel rest
              match skipBlank rest with
              | ',' :: rest =>
                  let (fs, rest) ← fields? fuel rest
                  some ((key, v) :: fs, rest)
              | '\x7d' :: rest => some ([(key, v)], rest)
              | _ => none
          | _ => none
      | _ => none

end

def read? (cs : List Char) : Option Document :=
  match value? (2 * cs.length + 2) cs with
  | some (v, rest) => if skipBlank rest = [] then some v else none
  | none => none

def asText? : Document → Option String
  | .text s => s
  | _ => none

def field? (name : String) (fields : List (Option String × Document)) :
    Option (Option Document) :=
  match fields.filter (·.1 = some name) with
  | [] => some none
  | [f] => some (some f.2)
  | _ => none

end Document

end CommitMarking
