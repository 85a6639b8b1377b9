namespace CommitMarking.Toml

/-- A reader takes what it reads from the front of a text. -/
abbrev Reader (α : Type) := List Char → Option (α × List Char)

def isSpace (c : Char) : Bool := c == ' ' || c == '\t'

def skipSpace (cs : List Char) : List Char := cs.dropWhile isSpace

def isPlain (c : Char) : Bool := c == '\t' || (' ' ≤ c && c ≤ '~') || '\x80' ≤ c

def newline? : List Char → Option (List Char)
  | '\n' :: rest => some rest
  | '\x0d' :: '\n' :: rest => some rest
  | _ => none

def lineEnd? (cs : List Char) : Option (List Char) := if cs = [] then some [] else newline? cs

def skipComment : List Char → List Char
  | '#' :: rest => rest.dropWhile isPlain
  | cs => cs

def restOfLine? (cs : List Char) : Option (List Char) := lineEnd? (skipComment (skipSpace cs))

mutual

def skipLines : List Char → List Char
  | [] => []
  | c :: rest =>
      if isSpace c || c == '\n' then skipLines rest
      else if c = '\x0d' ∧ rest.head? = some '\n' then skipLines rest
      else if c = '#' then skipCommentLine rest
      else c :: rest

def skipCommentLine : List Char → List Char
  | [] => []
  | c :: rest =>
      if c = '\n' then skipLines rest
      else if c = '\x0d' ∧ rest.head? = some '\n' then skipCommentLine rest
      else if isPlain c then skipCommentLine rest
      else c :: rest

end

def skipFold : List Char → List Char
  | [] => []
  | c :: rest =>
      if isSpace c || c == '\n' || (c == '\x0d' && rest.head? == some '\n') then skipFold rest
      else c :: rest

def hex? (c : Char) : Option Nat :=
  if '0' ≤ c ∧ c ≤ '9' then some (c.toNat - 48)
  else if 'a' ≤ c ∧ c ≤ 'f' then some (c.toNat - 87)
  else if 'A' ≤ c ∧ c ≤ 'F' then some (c.toNat - 55)
  else none

def radix? (base : Nat) (digit? : Char → Option Nat) (cs : List Char) : Option Nat :=
  cs.foldlM (fun n c => (digit? c).map (n * base + ·)) 0

def codePoint? (n : Nat) : Reader Char := fun cs => do
  let digits := cs.take n
  guard (digits.length = n)
  let code ← radix? 16 hex? digits
  guard (code < 0xD800 ∨ (0xE000 ≤ code ∧ code < 0x110000))
  some (Char.ofNat code, cs.drop n)

def escape? : Reader Char
  | 'b' :: rest => some ('\x08', rest)
  | 't' :: rest => some ('\t', rest)
  | 'n' :: rest => some ('\n', rest)
  | 'f' :: rest => some ('\x0c', rest)
  | 'r' :: rest => some ('\r', rest)
  | '"' :: rest => some ('"', rest)
  | '\\' :: rest => some ('\\', rest)
  | 'u' :: rest => codePoint? 4 rest
  | 'U' :: rest => codePoint? 8 rest
  | _ => none

def push (c : Char) (read : Option (List Char × List Char)) : Option (List Char × List Char) :=
  read.map fun (cs, rest) => (c :: cs, rest)

def basic? : Nat → Reader (List Char)
  | 0, _ => none
  | _ + 1, [] => none
  | fuel + 1, c :: rest =>
      if c = '"' then some ([], rest)
      else if c = '\\' then do
        let (c, rest) ← escape? rest
        push c (basic? fuel rest)
      else if isPlain c then push c (basic? fuel rest)
      else none

def literal? : Reader (List Char)
  | [] => none
  | c :: rest =>
      if c = '\'' then some ([], rest)
      else if isPlain c then push c (literal? rest)
      else none

/-- Up to two quotes may stand right before the three that end a string of several lines. -/
def closing? (quote : Char) : List Char → Option (List Char × List Char)
  | a :: b :: c :: rest =>
      if a = quote ∧ b = quote ∧ c = quote then
        let extra := rest.takeWhile (· = quote)
        if extra.length ≤ 2 then some (extra, rest.drop extra.length) else none
      else none
  | _ => none

def threeQuotes (quote : Char) (cs : List Char) : Bool := [quote, quote, quote].isPrefixOf cs

/-- A string of several lines, after the quotes that open it. With `escapes`, a backslash starts an
escape, and at the end of a line it takes away all blanks up to the next character. -/
def multiline? (quote : Char) (escapes : Bool) : Nat → Reader (List Char)
  | 0, _ => none
  | _ + 1, [] => none
  | fuel + 1, c :: rest =>
      if threeQuotes quote (c :: rest) then closing? quote (c :: rest)
      else if c = '\\' ∧ escapes then
        match newline? (skipSpace rest) with
        | some rest => multiline? quote escapes fuel (skipFold rest)
        | none => do
            let (c, rest) ← escape? rest
            push c (multiline? quote escapes fuel rest)
      else match newline? (c :: rest) with
        | some rest => push '\n' (multiline? quote escapes fuel rest)
        | none => if isPlain c then push c (multiline? quote escapes fuel rest) else none

def finish (read : Option (List Char × List Char)) : Option (String × List Char) :=
  read.map fun (cs, rest) => (String.ofList cs, rest)

def multilineText? (quote : Char) (escapes : Bool) (fuel : Nat) : Reader String := fun cs =>
  finish (multiline? quote escapes fuel ((newline? cs).getD cs))

def basicText? (fuel : Nat) : Reader String := fun cs => finish (basic? fuel cs)

def literalText? : Reader String := fun cs => finish (literal? cs)

def text? (fuel : Nat) : Reader String
  | '"' :: '"' :: '"' :: rest => multilineText? '"' true fuel rest
  | '\'' :: '\'' :: '\'' :: rest => multilineText? '\'' false fuel rest
  | '"' :: rest => basicText? fuel rest
  | '\'' :: rest => literalText? rest
  | _ => none

def isBare (c : Char) : Bool := c.isAlphanum || c == '-' || c == '_'

def simpleKey? (fuel : Nat) : Reader String
  | '"' :: rest => basicText? fuel rest
  | '\'' :: rest => literalText? rest
  | cs =>
      let bare := cs.takeWhile isBare
      if bare = [] then none else some (String.ofList bare, cs.drop bare.length)

def dotted? : Nat → Reader (List String)
  | 0, _ => none
  | fuel + 1, cs => do
      let (key, rest) ← simpleKey? fuel (skipSpace cs)
      match skipSpace rest with
      | '.' :: rest =>
          let (keys, rest) ← dotted? fuel rest
          some (key :: keys, rest)
      | rest => some ([key], rest)

def depthLimit : Nat := 80

def key? (fuel : Nat) : Reader (List String) := fun cs => do
  let (keys, rest) ← dotted? fuel cs
  guard (keys.length < depthLimit)
  some (keys, rest)

end CommitMarking.Toml
