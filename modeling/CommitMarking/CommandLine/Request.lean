import CommitMarking.Text.Decimal

namespace CommitMarking

inductive Argument
  | help
  | version
  | last
  | verbose
  | json
  | width
  | config
  | repository
  | suite
  | dir
  deriving DecidableEq, Repr

inductive Command
  | marking
  | hosting
  deriving DecidableEq, Repr

inductive Stop
  | help
  | version
  | usage
  | noValue (a : Argument)
  deriving DecidableEq, Repr

namespace Argument

def takesValue : Argument → Bool
  | width | config => true
  | _ => false

def form : Argument → String
  | help => "--help"
  | version => "--version"
  | last => "--last"
  | verbose => "--verbose"
  | json => "--json"
  | width => "--width <WIDTH>"
  | config => "--config <CONFIG>"
  | repository => "[REPO]"
  | suite => "<SUITE>"
  | dir => "<DIR>"

def width? (value : String) : Option Nat := Text.Decimal.nat? UInt64.size value

def check (a : Argument) (value : String) : Except Stop Unit :=
  match a with
  | width => if (width? value).isSome then .ok () else .error .usage
  | config | repository | dir => if value = "" then .error (.noValue a) else .ok ()
  | _ => .ok ()

end Argument

namespace Command

def named? : Command → String → Option Argument
  | _, "help" => some .help
  | _, "verbose" => some .verbose
  | _, "json" => some .json
  | _, "config" => some .config
  | .marking, "version" => some .version
  | .marking, "last" => some .last
  | .marking, "width" => some .width
  | _, _ => none

def lettered? : Command → Char → Option Argument
  | _, 'h' => some .help
  | _, 'v' => some .verbose
  | _, 'c' => some .config
  | .marking, 'V' => some .version
  | .marking, 'w' => some .width
  | _, _ => none

def operands : Command → List Argument
  | .marking => [.repository]
  | .hosting => [.suite, .dir]

end Command

/-- The arguments read so far. The last value is not yet checked, and may not yet have been read. -/
structure Reading where
  given : List (Argument × String)
  pending : Option (Argument × Option String)
  operands : List Argument
  operandsOnly : Bool
  deriving DecidableEq, Repr

namespace Reading

def start (command : Command) : Reading := ⟨[], none, command.operands, false⟩

def value? (r : Reading) (a : Argument) : Option String := r.given.lookup a

def has (r : Reading) (a : Argument) : Bool := (r.value? a).isSome

def awaitsValue (r : Reading) : Bool := r.pending.any (·.2.isNone)

def give (r : Reading) (a : Argument) (value : String) : Except Stop Reading := do
  if r.has a then throw .usage
  a.check value
  return { r with given := (a, value) :: r.given }

def settle (r : Reading) : Except Stop Reading :=
  match r.pending with
  | none => .ok r
  | some (a, some value) => { r with pending := none }.give a value
  | some (a, none) => .error (.noValue a)

def switch (r : Reading) (a : Argument) : Except Stop Reading := do
  let r ← r.settle
  match a with
  | .help => throw .help
  | .version => throw .version
  | a => r.give a ""

def assign (r : Reading) (a : Argument) (value : Option String) : Except Stop Reading := do
  let r ← r.settle
  match value with
  | some value => r.give a value
  | none => return { r with pending := some (a, none) }

def operand (r : Reading) (value : String) : Except Stop Reading := do
  let r ← r.settle
  match r.operands with
  | [] => throw .usage
  | a :: operands => return { r with pending := some (a, some value), operands }

def long (command : Command) (r : Reading) (name : String) (value : Option String) :
    Except Stop Reading :=
  match command.named? name with
  | none => .error .usage
  | some a =>
      if a.takesValue then r.assign a value
      else if value.isSome then .error .usage
      else r.switch a

def attached? : List Char → Option String
  | [] => none
  | '=' :: cs => some (String.ofList cs)
  | cs => some (String.ofList cs)

def letters (command : Command) (r : Reading) : List Char → Except Stop Reading
  | [] => .ok r
  | c :: cs =>
      match command.lettered? c with
      | none => .error .usage
      | some a =>
          if a.takesValue then r.assign a (attached? cs)
          else do letters command (← r.switch a) cs

def splitName (cs : List Char) : String × Option String :=
  (String.ofList (cs.takeWhile (· ≠ '=')), attached? (cs.dropWhile (· ≠ '=')))

/-- A dash alone is a plain word, and two dashes make all that follows operands. -/
def step (command : Command) (r : Reading) (arg : String) : Except Stop Reading :=
  if r.operandsOnly then r.operand arg
  else match arg.toList with
    | ['-', '-'] => .ok { r with operandsOnly := true }
    | '-' :: '-' :: cs => r.long command (splitName cs).1 (splitName cs).2
    | '-' :: c :: cs => r.letters command (c :: cs)
    | _ =>
        match r.pending with
        | some (a, none) => .ok { r with pending := some (a, some arg) }
        | _ => r.operand arg

def runSuite : String := "run-suite"

def help : String := "help"

def isCommand (r : Reading) (arg : String) : Bool :=
  !r.operandsOnly && !r.awaitsValue && (arg = runSuite || arg = help)

def upToCommand (r : Reading) : List String → Except Stop (Reading × Option (String × List String))
  | [] => return (r, none)
  | arg :: args =>
      if r.isCommand arg then return (r, some (arg, args))
      else do upToCommand (← r.step .marking arg) args

def finish (r : Reading) (env : Option String) : Except Stop Reading := do
  let r ← r.settle
  if !r.has .config then env.forM (Argument.check .config)
  return r

end Reading

inductive Task
  | mark (repository : String) (last : Bool) (width : Option Nat)
  | host (suite dir : String)
  deriving DecidableEq, Repr

structure Request where
  verbose : Bool
  json : Bool
  config : Option String
  task : Task
  deriving DecidableEq, Repr

namespace Request

def marking (env : Option String) (r : Reading) : Request where
  verbose := r.has .verbose
  json := r.has .json
  config := r.value? .config <|> env
  task := .mark ((r.value? .repository).getD ".") (r.has .last)
    (r.value? .width >>= Argument.width?)

/-- What is given after the command counts before what is given in front of it. -/
def hosting (env : Option String) (outer inner : Reading) (suite dir : String) : Request where
  verbose := inner.has .verbose || outer.has .verbose
  json := inner.has .json || outer.has .json
  config := inner.value? .config <|> outer.value? .config <|> env
  task := .host suite dir

/-- What follows the command has to be in order before what is in front of it is looked at. -/
def host (env : Option String) (outer : Reading) (args : List String) : Except Stop Request := do
  let inner ← args.foldlM (Reading.step .hosting) (.start .hosting)
  let inner ← inner.finish env
  match inner.value? .suite, inner.value? .dir with
  | some suite, some dir => return hosting env (← outer.finish env) inner suite dir
  | _, _ => throw .usage

def help : List String → Stop
  | [] => .help
  | [command] => if command = Reading.runSuite ∨ command = Reading.help then .help else .usage
  | _ => .usage

def parse (env : Option String) (args : List String) : Except Stop Request := do
  match ← (Reading.start .marking).upToCommand args with
  | (r, none) => return marking env (← r.finish env)
  | (r, some (command, rest)) =>
      if command = Reading.runSuite then host env r rest else throw (help rest)

end Request

end CommitMarking
