import CommitMarking.CommandLine.Request
import CommitMarking.Config
import CommitMarking.History
import CommitMarking.Marking
import CommitMarking.Scheme
import CommitMarking.Suite.Host
import CommitMarking.Text.Quoted

namespace CommitMarking

inductive Failure
  | configNotFound (path : String) (source : SystemError)
  | configUnreadable (path : Location) (source : SystemError)
  | configNotText (path : Location)
  | configInvalid (path : Location) (source : ConfigError)
  | notRepository (path : String)
  | zeroWidth
  | historyUnreadable (path : String) (source : GitError)
  | suiteNotRun (suite : String) (source : HostError)
  deriving DecidableEq, Repr

namespace Failure

def text : Failure → String
  | configNotFound path _ => "Config file " ++ Text.quoted path ++ " not found"
  | configUnreadable path _ | configNotText path =>
      "Failed to read config " ++ Text.quoted path.text
  | configInvalid path _ => "Invalid config " ++ Text.quoted path.text
  | notRepository path => Text.quoted path ++ " is not a git repository"
  | zeroWidth => "--width must be positive"
  | historyUnreadable path _ => "Failed to read history of " ++ Text.quoted path
  | suiteNotRun suite _ => "Suite " ++ suite ++ " could not be run"

def cause? : Failure → Option String
  | configNotFound _ source | configUnreadable _ source => some source.message
  | configNotText _ => some "stream did not contain valid UTF-8"
  | configInvalid _ source => some source.message
  | notRepository _ | zeroWidth => none
  | historyUnreadable _ source => some (MarkError.git source).message
  | suiteNotRun _ source => some source.message

def indentChar (c : Char) : List Char := if c = '\n' then "\n    ".toList else [c]

def indented (s : String) : String := "    " ++ String.ofList (s.toList.flatMap indentChar)

def message (f : Failure) : String :=
  "Error: " ++ f.text ++ "\n" ++
    match f.cause? with
    | none => ""
    | some cause => "\nCaused by:\n" ++ indented cause ++ "\n"

end Failure

inductive Reply
  | stopped (reason : Stop)
  | printed (text : String)
  | failed (failure : Failure)
  deriving DecidableEq, Repr

namespace Reply

def versionText : String := "gitmark 0.3.1\n"

def usageText : String :=
  "Usage: gitmark [--last] [-v] [--json] [-c FILE] [-w COLUMNS] [REPO]\n" ++
  "       gitmark run-suite [-v] [--json] [-c FILE] SUITE DIR\n"

def noValueText (a : Argument) : String :=
  "error: a value is required for '" ++ a.form ++ "' but none was supplied\n\n" ++
  "For more information, try '--help'.\n"

def exitCode : Reply → Nat
  | stopped .usage | stopped (.noValue _) => 2
  | stopped _ | printed _ => 0
  | failed _ => 1

def stdout : Reply → String
  | stopped .help => usageText
  | stopped .version => versionText
  | printed text => text
  | _ => ""

def stderr : Reply → String
  | stopped .usage => usageText
  | stopped (.noValue a) => noValueText a
  | failed failure => failure.message
  | _ => ""

def ofResult : Except Failure String → Reply
  | .ok text => printed text
  | .error failure => failed failure

def process (r : Reply) : Process :=
  ⟨[(0, ⟨.out, Text.Utf8.encode r.stdout⟩), (0, ⟨.err, Text.Utf8.encode r.stderr⟩)], 0,
    .exit r.exitCode, 0⟩

end Reply

/-- Where a command line is given: on a machine, in a directory, to an executable, with what the
environment says about the configuration. -/
structure Session where
  machine : Machine
  dir : Location
  executable : String
  configEnv : Option String

structure Settings where
  source : Option Location
  config : Config
  deriving DecidableEq, Repr

namespace Session

def readSettings (files : FileTree) (path : Location) : Except Failure Settings := do
  let content ← (files.read path).mapError (.configUnreadable path)
  match Text.Utf8.strict? content with
  | none => throw (.configNotText path)
  | some text => return ⟨some path, ← (Config.parse text).mapError (.configInvalid path)⟩

def settings (s : Session) (files : FileTree) : Option String → Except Failure Settings
  | none => return ⟨none, .standard⟩
  | some path => do
      readSettings files (← (files.canonical s.dir path).mapError (.configNotFound path))

def hostCommand (s : Session) (source : Option Location) : List String :=
  s.executable :: (source.elim [] fun path => ["--config", path.text]) ++ [Reading.runSuite]

def testing (s : Session) (settings : Settings) : Testing :=
  let t := settings.config.testing
  if t.host = [] then { t with host := s.hostCommand settings.source } else t

def scheme (s : Session) (settings : Settings) : Expr .int :=
  Scheme.standard (.runner settings.config.compiler.runner) (.runner (s.testing settings).runner)

def report (width : Nat) (reports : List Report) : String :=
  String.join (Report.texts width 1 reports) ++ "\n\n" ++ Report.summary width reports

def mark (s : Session) (m : Machine) (settings : Settings) (path : String) (last : Bool)
    (width : Option Nat) : Act Failure String := do
  let repository : Repository := ⟨s.machine, (← get).files.locate s.dir path⟩
  if !(← repository.isRepository) then throw (.notRepository path)
  let width := width.getD settings.config.width
  if width = 0 then throw .zeroWidth
  let commits ← repository.history.mapError (.historyUnreadable path)
  let e := s.scheme settings
  let reports ← if last then e.markLast m commits else e.markAll m commits
  return report width reports

def hosted (suite : String) (result : Except HostError SuiteReport × Bytes) :
    Except Failure String :=
  match result.1 with
  | .ok _ => .ok (Text.Utf8.lossy result.2)
  | .error e => .error (.suiteNotRun suite e)

def host (s : Session) (settings : Settings) (suite dir : String) : Act Failure String := do
  let place := (← get).files.locate s.dir dir
  Act.lift (hosted suite (← settings.config.registry.serve s.machine .unlimited suite place))

def answer (s : Session) (m : Machine) (r : Request) : Act Failure String := do
  let settings ← Act.lift (s.settings (← get).files r.config)
  match r.task with
  | .mark path last width => s.mark m settings path last width
  | .host suite dir => s.host settings suite dir

def hostWithin (s : Session) (limit : Nat) (settings : Settings) (suite dir : String) :
    StateM World (Option (Except Failure String)) := do
  let place := (← get).files.locate s.dir dir
  let registry := settings.config.registry
  return (← registry.serveWithin s.machine limit suite place).map (hosted suite)

/-- Answers a request within a time that only the cases of a suite can exceed. -/
def answerWithin (s : Session) (limit : Nat) (r : Request) :
    StateM World (Option (Except Failure String)) := do
  match r.task, s.settings (← get).files r.config with
  | .host suite dir, .ok settings => s.hostWithin limit settings suite dir
  | _, _ => return some (← (s.answer s.machine r).run)

def replyWithin (s : Session) (limit : Option Nat) (args : List String) :
    StateM World (Option Reply) := do
  match Request.parse s.configEnv args, limit with
  | .error stop, _ => return some (.stopped stop)
  | .ok r, none => return some (.ofResult (← (s.answer s.machine r).run))
  | .ok r, some limit => return (← s.answerWithin limit r).map .ofResult

/-- The executable as a program of the machine, which can host suites. -/
def resident (s : Session) : Resident where
  program := s.executable
  run limit args dir := do
    return (← { s with dir }.replyWithin limit args).elim Process.silent Reply.process

def marker (s : Session) : Machine :=
  { s.machine with residents := s.resident :: s.machine.residents }

def reply (s : Session) (args : List String) : StateM World Reply :=
  match Request.parse s.configEnv args with
  | .error stop => return .stopped stop
  | .ok r => return .ofResult (← (s.answer s.marker r).run)

end Session

end CommitMarking
