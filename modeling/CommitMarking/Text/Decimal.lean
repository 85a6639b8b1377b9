namespace CommitMarking.Text.Decimal

def ofNat (n : Nat) : String := String.ofList (Nat.toDigits 10 n)

def ofInt : Int → String
  | .ofNat n => ofNat n
  | .negSucc n => "-" ++ ofNat (n + 1)

def signed : Int → String
  | .ofNat n => "+" ++ ofNat n
  | .negSucc n => "-" ++ ofNat (n + 1)

def padded (width n : Nat) : String :=
  let digits := Nat.toDigits 10 n
  String.ofList (List.replicate (width - digits.length) '0' ++ digits)

def digits? (cs : List Char) : Option Nat :=
  if cs ≠ [] ∧ cs.all Char.isDigit then some (Nat.ofDigitChars 10 cs 0) else none

def nat? (bound : Nat) (s : String) : Option Nat :=
  let digits := match s.toList with
    | '+' :: cs => cs
    | cs => cs
  (digits? digits).filter (· < bound)

def int64? (s : String) : Option Int64 :=
  let number : Option Int := match s.toList with
    | '+' :: cs => (digits? cs).map Int.ofNat
    | '-' :: cs => (digits? cs).map fun n => -(n : Int)
    | cs => (digits? cs).map Int.ofNat
  (number.filter fun n =>
    decide (Int64.minValue.toInt ≤ n) && decide (n ≤ Int64.maxValue.toInt)).map Int64.ofInt

theorem digits?_toDigits (n : Nat) : digits? (Nat.toDigits 10 n) = some n := by
  have h : (Nat.toDigits 10 n).all Char.isDigit = true :=
    List.all_eq_true.2 fun c hc => Nat.isDigit_of_mem_toDigits (by decide) (by decide) hc
  simp [digits?, h, Nat.toDigits_ne_nil]

theorem padded_injective {width m n : Nat} (h : padded width m = padded width n) : m = n := by
  have value (k : Nat) : Nat.ofDigitChars 10 (padded width k).toList 0 = k := by
    simp [padded, Nat.ofDigitChars_append]
  rw [← value m, h, value]

end CommitMarking.Text.Decimal
