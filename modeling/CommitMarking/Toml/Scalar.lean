import CommitMarking.Toml.Scan
import CommitMarking.Toml.Datum

namespace CommitMarking.Toml

/-- The digits of a number without the underscores, each of which stands between two of them. -/
def ungroup? (isDigit : Char → Bool) : List Char → Option (List Char)
  | [] => none
  | [c] => if isDigit c then some [c] else none
  | c :: '_' :: rest => if isDigit c then (ungroup? isDigit rest).map (c :: ·) else none
  | c :: rest => if isDigit c then (ungroup? isDigit rest).map (c :: ·) else none

def isHexDigit (c : Char) : Bool := (hex? c).isSome

def decimalNat (cs : List Char) : Nat := Nat.ofDigitChars 10 cs 0

def wholeDigits? (cs : List Char) : Option (List Char) := do
  let digits ← ungroup? Char.isDigit cs
  guard (digits.length = 1 ∨ digits.head? ≠ some '0')
  some digits

def unsigned : List Char → Bool × List Char
  | '-' :: cs => (true, cs)
  | '+' :: cs => (false, cs)
  | cs => (false, cs)

def inRange (n : Int) : Option Int :=
  if Int64.minValue.toInt ≤ n ∧ n ≤ Int64.maxValue.toInt then some n else none

def prefixed? (base : Nat) (isDigit : Char → Bool) (cs : List Char) : Option Int := do
  let n ← radix? base hex? (← ungroup? isDigit cs)
  inRange n

def integer? : List Char → Option Int
  | '0' :: 'x' :: cs => prefixed? 16 isHexDigit cs
  | '0' :: 'o' :: cs => prefixed? 8 (fun c => '0' ≤ c && c ≤ '7') cs
  | '0' :: 'b' :: cs => prefixed? 2 (fun c => c == '0' || c == '1') cs
  | cs => do
      let (minus, cs) := unsigned cs
      let n := decimalNat (← wholeDigits? cs)
      inRange (if minus then -n else n)

/-- Whether `digits · 10 ^ exponent` is beyond the double precision numbers, rounding to the
nearest. Only numbers of about the right size are worked out. -/
def overflows (digits : List Char) (exponent : Int) : Bool :=
  let digits := digits.dropWhile (· = '0')
  let size := (digits.length : Int) + exponent
  let bound : Nat := ((1 <<< 54) - 1) <<< 970
  if digits = [] ∨ size ≤ 308 then false
  else if 310 ≤ size then true
  else if 0 ≤ exponent then bound ≤ decimalNat digits * Nat.pow 10 exponent.toNat
  else bound * Nat.pow 10 (-exponent).toNat ≤ decimalNat digits

def isGrouped (c : Char) : Bool := c.isDigit || c == '_'

def exponent? : List Char → Option Int
  | [] => some 0
  | e :: cs => do
      guard (e = 'e' ∨ e = 'E')
      let (minus, cs) := unsigned cs
      let n := decimalNat (← ungroup? Char.isDigit cs)
      some (if minus then -n else n)

def isFloat (cs : List Char) : Bool :=
  let (minus, cs) := unsigned cs
  if cs = ['i', 'n', 'f'] ∨ cs = ['n', 'a', 'n'] then true
  else
    let read : Option Bool := do
      let whole ← wholeDigits? (cs.takeWhile isGrouped)
      let (fraction, rest) ← match cs.dropWhile isGrouped with
        | '.' :: cs => do
            some (← ungroup? Char.isDigit (cs.takeWhile isGrouped), cs.dropWhile isGrouped)
        | [] => none
        | rest => some ([], rest)
      let exponent ← exponent? rest
      some (minus || !overflows (whole ++ fraction) (exponent - fraction.length))
    read.getD false

def pair? (least most : Nat) (a b : Char) : Option Nat := do
  guard (a.isDigit ∧ b.isDigit)
  let n := decimalNat [a, b]
  guard (least ≤ n ∧ n ≤ most)
  some n

def isLeap (year : Nat) : Bool := year % 4 == 0 && (year % 100 != 0 || year % 400 == 0)

def daysIn (year month : Nat) : Nat :=
  if month = 2 then (if isLeap year then 29 else 28)
  else if month = 4 ∨ month = 6 ∨ month = 9 ∨ month = 11 then 30
  else 31

def afterDay? : List Char → Option (List Char)
  | y1 :: y2 :: y3 :: y4 :: '-' :: m1 :: m2 :: '-' :: d1 :: d2 :: rest => do
      guard ([y1, y2, y3, y4].all Char.isDigit)
      let month ← pair? 1 12 m1 m2
      let _ ← pair? 1 (daysIn (decimalNat [y1, y2, y3, y4]) month) d1 d2
      some rest
  | _ => none

def afterClock? : List Char → Option (List Char)
  | h1 :: h2 :: ':' :: m1 :: m2 :: ':' :: s1 :: s2 :: rest => do
      let _ ← pair? 0 23 h1 h2
      let _ ← pair? 0 59 m1 m2
      let _ ← pair? 0 60 s1 s2
      match rest with
      | '.' :: rest =>
          guard (rest.head?.any Char.isDigit)
          some (rest.dropWhile Char.isDigit)
      | rest => some rest
  | _ => none

def isOffset : List Char → Bool
  | [] | ['Z'] | ['z'] => true
  | [sign, h1, h2, ':', m1, m2] =>
      (sign == '+' || sign == '-') && (pair? 0 23 h1 h2).isSome && (pair? 0 59 m1 m2).isSome
  | _ => false

def isClock (cs : List Char) : Bool := afterClock? cs = some []

def isOffsetClock (cs : List Char) : Bool := (afterClock? cs).any isOffset

def isTime (cs : List Char) : Bool :=
  isClock cs || match afterDay? cs with
    | some [] => true
    | some (t :: rest) => (t == 'T' || t == 't') && isOffsetClock rest
    | none => false

def isToken (c : Char) : Bool :=
  c.isAlphanum || c == '_' || c == '-' || c == '+' || c == '.' || c == ':'

def scalar? (token : List Char) : Option Datum :=
  if token = ['t', 'r', 'u', 'e'] then some (.truth true)
  else if token = ['f', 'a', 'l', 's', 'e'] then some (.truth false)
  else if isTime token then some .time
  else if isFloat token then some .float
  else (integer? token).map .integer

def scalarValue? : Reader Datum := fun cs =>
  let token := cs.takeWhile isToken
  let rest := cs.drop token.length
  let later := rest.drop 1 |>.takeWhile isToken
  if afterDay? token = some [] ∧ rest.head? = some ' ' ∧ isOffsetClock later then
    some (.time, rest.drop (1 + later.length))
  else (scalar? token).map (·, rest)

end CommitMarking.Toml
