namespace CommitMarking

/-- What came of a test case, `none` being a pass. -/
structure CaseOutcome where
  name : String
  failure : Option String
  deriving DecidableEq, Repr

structure SuiteReport where
  suite : String
  cases : List CaseOutcome
  deriving DecidableEq, Repr

def CaseOutcome.passed (c : CaseOutcome) : Bool := c.failure.isNone

def SuiteReport.countPassed (r : SuiteReport) : Nat := r.cases.countP CaseOutcome.passed

namespace SuiteReport

def hexDigit (n : Nat) : Char := n.digitChar

def encodeChar (c : Char) : List Char :=
  match c with
  | '"' => ['\\', '"']
  | '\\' => ['\\', '\\']
  | '\x08' => ['\\', 'b']
  | '\x0c' => ['\\', 'f']
  | '\n' => ['\\', 'n']
  | '\r' => ['\\', 'r']
  | '\t' => ['\\', 't']
  | c =>
      if c.toNat < 32 then ['\\', 'u', '0', '0', hexDigit (c.toNat / 16), hexDigit (c.toNat % 16)]
      else [c]

def encodeText (s : String) : List Char := '"' :: s.toList.flatMap encodeChar ++ ['"']

def encodeFailure : Option String → List Char
  | none => "null".toList
  | some message => encodeText message

def encodeCase (c : CaseOutcome) : List Char :=
  "\x7b\"name\":".toList ++ encodeText c.name ++ ",\"failure\":".toList ++
    encodeFailure c.failure ++ "\x7d".toList

def encodeCases : List CaseOutcome → List Char
  | [] => []
  | [c] => encodeCase c
  | c :: cs => encodeCase c ++ ',' :: encodeCases cs

def encode (r : SuiteReport) : List Char :=
  "\x7b\"suite\":".toList ++ encodeText r.suite ++ ",\"cases\":[".toList ++
    encodeCases r.cases ++ "]\x7d".toList

end SuiteReport

end CommitMarking
