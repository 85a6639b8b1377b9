import CommitMarking.Compiler
import CommitMarking.Suite.Case
import CommitMarking.Testing
import CommitMarking.Toml.Document

namespace CommitMarking

structure CaseConfig where
  name : String
  command : List String
  timeout : Nat
  deriving DecidableEq, Repr

structure SuiteConfig where
  name : String
  cases : List CaseConfig
  deriving DecidableEq, Repr

structure Config where
  width : Nat
  compiler : Compiler
  testing : Testing
  suites : List SuiteConfig
  deriving DecidableEq, Repr

inductive ConfigError
  | malformed
  | zeroWidth
  | zeroTimeout (case suite : String)
  deriving DecidableEq, Repr

def ConfigError.message : ConfigError → String
  | malformed => "TOML parse error"
  | zeroWidth => "width must be positive"
  | zeroTimeout case suite =>
      "case " ++ case ++ " of suite " ++ suite ++ ": timeout_ms must be positive"

namespace Config

open Toml

/-- The fields of a structure: named in a table, or by position in a list. -/
inductive Source
  | named (fields : List (String × Datum))
  | listed (items : List Datum)

namespace Source

/-- A time passes for a table that has none of the fields. -/
def ofValue? : Datum → Option Source
  | .table _ fields => some (named fields)
  | .time => some (named [])
  | .list items => some (listed items)
  | .tables items => some (listed (items.reverse.map (.table .header)))
  | _ => none

def field? (s : Source) (position : Nat) (key : String) : Option Datum :=
  match s with
  | named fields => fields.lookup key
  | listed items => items[position]?

def required {α : Type} (s : Source) (position : Nat) (key : String) (read : Datum → Option α) :
    Option α := s.field? position key >>= read

def optional {α : Type} (s : Source) (position : Nat) (key : String) (standard : α)
    (read : Datum → Option α) : Option α :=
  match s.field? position key with
  | none => some standard
  | some v => read v

end Source

def text? : Datum → Option String
  | .text s => some s
  | _ => none

def natural? : Datum → Option Nat
  | .integer (.ofNat n) => some n
  | _ => none

def list? {α : Type} (read : Datum → Option α) : Datum → Option (List α)
  | .list items => items.mapM read
  | .tables items => (items.reverse.map (Datum.table .header)).mapM read
  | _ => none

def isEmpty : Datum → Bool
  | .table _ [] => true
  | .list [] => true
  | _ => false

def policy? : String → Option EmptySuite
  | "pass" => some .pass
  | "fail" => some .fail
  | _ => none

def emptySuite? : Datum → Option EmptySuite
  | .text s => policy? s
  | .table _ [(name, v)] => if isEmpty v then policy? name else none
  | _ => none

def compiler? (v : Datum) : Option Compiler := do
  let s ← Source.ofValue? v
  let d := Compiler.standard
  return {
    name := ← s.optional 0 "name" d.name text?
    program := ← s.optional 1 "program" d.program text?
    flags := ← s.optional 2 "flags" d.flags (list? text?)
    extensions := ← s.optional 3 "extensions" d.extensions (list? text?)
    classpath := ← s.optional 4 "classpath" d.classpath (list? text?)
    classpathFlag := ← s.optional 5 "classpath_flag" d.classpathFlag text?
    outputFlag := ← s.optional 6 "output_flag" d.outputFlag text?
    timeout := ← s.optional 7 "timeout_ms" d.timeout natural? }

def testing? (v : Datum) : Option Testing := do
  let s ← Source.ofValue? v
  let d := Testing.standard
  return {
    timeout := ← s.optional 0 "timeout_ms" d.timeout natural?
    suites := ← s.optional 1 "suites" d.suites (list? text?)
    host := ← s.optional 2 "host" d.host (list? text?)
    emptySuite := ← s.optional 3 "empty_suite" d.emptySuite emptySuite? }

def case? (v : Datum) : Option CaseConfig := do
  let s ← Source.ofValue? v
  return ⟨← s.required 0 "name" text?, ← s.required 1 "command" (list? text?),
    ← s.optional 2 "timeout_ms" 10000 natural?⟩

def suite? (v : Datum) : Option SuiteConfig := do
  let s ← Source.ofValue? v
  return ⟨← s.required 0 "name" text?, ← s.optional 1 "case" [] (list? case?)⟩

def standard : Config where
  width := Text.defaultWidth
  compiler := Compiler.standard
  testing := Testing.standard
  suites := []

/-- A configuration by its fields, all of which may be missing. Fields that it does not have are
passed over. -/
def ofFields? (fields : List (String × Datum)) : Option Config := do
  let s := Source.named fields
  return {
    width := ← s.optional 0 "width" standard.width natural?
    compiler := ← s.optional 1 "build" standard.compiler compiler?
    testing := ← s.optional 2 "test" standard.testing testing?
    suites := ← s.optional 3 "suite" standard.suites (list? suite?) }

def zeroCase? (s : SuiteConfig) : Option ConfigError :=
  (s.cases.find? (·.timeout = 0)).map fun c => .zeroTimeout c.name s.name

def fault? (c : Config) : Option ConfigError :=
  if c.width = 0 then some .zeroWidth else c.suites.findSome? zeroCase?

def check (c : Config) : Except ConfigError Config :=
  match c.fault? with
  | some e => .error e
  | none => .ok c

def parse (text : String) : Except ConfigError Config :=
  match Toml.read? text >>= ofFields? with
  | none => .error .malformed
  | some c => c.check

def testSuite (s : SuiteConfig) : TestSuite :=
  .ofCases s.name (s.cases.map fun c => ⟨c.name, .command c.command c.timeout⟩)

def registry (c : Config) : Registry := .ofSuites (c.suites.map testSuite)

end Config

end CommitMarking
