namespace CommitMarking.Text.Utf8

def encode (s : String) : List UInt8 := s.toList.flatMap String.utf8EncodeChar

structure Pending where
  bits : Nat
  more : Nat
  low : UInt8
  high : UInt8

inductive Start
  | whole (c : Char)
  | lead (p : Pending)
  | invalid

/-- The narrowed ranges after the lead bytes E0, ED, F0 and F4 leave out overlong forms, surrogates
and everything above U+10FFFF. -/
def start (b : UInt8) : Start :=
  if b < 0x80 then .whole (Char.ofNat b.toNat)
  else if b < 0xC2 then .invalid
  else if b < 0xE0 then .lead ⟨b.toNat % 32, 0, 0x80, 0xBF⟩
  else if b = 0xE0 then .lead ⟨0, 1, 0xA0, 0xBF⟩
  else if b = 0xED then .lead ⟨13, 1, 0x80, 0x9F⟩
  else if b < 0xF0 then .lead ⟨b.toNat % 16, 1, 0x80, 0xBF⟩
  else if b = 0xF0 then .lead ⟨0, 2, 0x90, 0xBF⟩
  else if b < 0xF4 then .lead ⟨b.toNat % 8, 2, 0x80, 0xBF⟩
  else if b = 0xF4 then .lead ⟨4, 2, 0x80, 0x8F⟩
  else .invalid

def Pending.push (p : Pending) (b : UInt8) : Nat := p.bits * 64 + b.toNat % 64

mutual

/-- The characters of a byte string, with `none` for each maximal part that belongs to none. -/
def decode : List UInt8 → List (Option Char)
  | [] => []
  | b :: bs =>
      match start b with
      | .whole c => some c :: decode bs
      | .invalid => none :: decode bs
      | .lead p => decodeAfter p bs

def decodeAfter (p : Pending) : List UInt8 → List (Option Char)
  | [] => [none]
  | b :: bs =>
      if p.low ≤ b ∧ b ≤ p.high then
        match p.more with
        | 0 => some (Char.ofNat (p.push b)) :: decode bs
        | n + 1 => decodeAfter ⟨p.push b, n, 0x80, 0xBF⟩ bs
      else
        match start b with
        | .whole c => none :: some c :: decode bs
        | .invalid => none :: none :: decode bs
        | .lead q => none :: decodeAfter q bs

end

def replacement : Char := '\uFFFD'

def lossy (bytes : List UInt8) : String :=
  String.ofList ((decode bytes).map (·.getD replacement))

def strict? (bytes : List UInt8) : Option String :=
  ((decode bytes).mapM id).map String.ofList

end CommitMarking.Text.Utf8
