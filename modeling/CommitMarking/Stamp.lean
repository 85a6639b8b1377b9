import CommitMarking.Text.Decimal

namespace CommitMarking

open Text

structure Day where
  year : Int
  month : Nat
  day : Nat
  deriving DecidableEq, Repr

/-- Counted in cycles of 400 years from 1 March of the year 0, so that a leap day ends its year.
`days` counts from 1 January 1970. -/
def Day.ofEpoch (days : Int) : Day :=
  let shifted := days + 719468
  let cycle := shifted / 146097
  let inCycle := (shifted % 146097).toNat
  let yearInCycle := (inCycle - inCycle / 1460 + inCycle / 36524 - inCycle / 146096) / 365
  let inYear := inCycle - (365 * yearInCycle + yearInCycle / 4 - yearInCycle / 100)
  let march := (5 * inYear + 2) / 153
  let month := if march < 10 then march + 3 else march - 9
  let year := cycle * 400 + yearInCycle
  ⟨if month ≤ 2 then year + 1 else year, month, inYear - (153 * march + 2) / 5 + 1⟩

def yearText (year : Int) : String :=
  if 0 ≤ year ∧ year ≤ 9999 then Decimal.padded 4 year.toNat
  else if year < 0 then "-" ++ Decimal.padded 4 (-year).toNat
  else "+" ++ Decimal.padded 4 year.toNat

def Day.text (d : Day) : String :=
  yearText d.year ++ "-" ++ Decimal.padded 2 d.month ++ "-" ++ Decimal.padded 2 d.day

def clockText (secondOfDay : Nat) : String :=
  Decimal.padded 2 (secondOfDay / 3600) ++ ":" ++ Decimal.padded 2 (secondOfDay / 60 % 60) ++ ":" ++
    Decimal.padded 2 (secondOfDay % 60)

/-- A moment in seconds from 1970 on, within the years -262143 to 262142. -/
structure Stamp where
  seconds : Int
  deriving DecidableEq, Repr

def Stamp.earliest : Int := -8334601228800

def Stamp.latest : Int := 8210266876799

def Stamp.ofSeconds? (seconds : Int) : Option Stamp :=
  if Stamp.earliest ≤ seconds ∧ seconds ≤ Stamp.latest then some ⟨seconds⟩ else none

def Stamp.text (s : Stamp) : String :=
  (Day.ofEpoch (s.seconds / 86400)).text ++ " " ++ clockText (s.seconds % 86400).toNat ++ " UTC"

example : (Day.ofEpoch (Stamp.earliest / 86400)) = ⟨-262143, 1, 1⟩ := by decide
example : (Day.ofEpoch (Stamp.latest / 86400)) = ⟨262142, 12, 31⟩ := by decide
example : Stamp.earliest % 86400 = 0 ∧ Stamp.latest % 86400 = 86399 := by decide
example : Day.ofEpoch 11016 = ⟨2000, 2, 29⟩ := by decide

end CommitMarking
