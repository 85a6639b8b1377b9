import CommitMarking.Execution
import CommitMarking.World

namespace CommitMarking

inductive Ending
  | exit (code : Nat)
  | signal (number : Nat)
  | hang
  deriving DecidableEq, Repr

/-- The exit code of a program that ends by itself. Death by signal `n` counts as `128 + n`. -/
def Ending.exitCode? : Ending → Option Int
  | exit code => some (code : Int)
  | signal number => some (128 + (number : Int))
  | hang => none

inductive Stream
  | out
  | err
  deriving DecidableEq, Repr

structure Write where
  stream : Stream
  bytes : Bytes
  deriving DecidableEq, Repr

def Write.onto (s : Stream) (ws : List Write) : Bytes :=
  ws.flatMap fun w => if w.stream = s then w.bytes else []

/-- A process may lead a group of its own, which is killed as a whole when the call ends, or join
that of its caller. -/
inductive ProcessGroup
  | own
  | inherit
  deriving DecidableEq, Repr

/-- What a process does that is left to itself: what it writes, each time so many milliseconds after
the last one, and how it ends, so many after that. Others in its group hold its output open until
`held` milliseconds from its start. -/
structure Process where
  writes : List (Nat × Write)
  rest : Nat
  ending : Ending
  held : Nat
  deriving DecidableEq, Repr

namespace Process

def silent : Process := ⟨[], 0, .hang, 0⟩

def elapsed (ws : List (Nat × Write)) : Nat := ws.foldr (fun w time => w.1 + time) 0

def lasts (p : Process) : Nat := elapsed p.writes + p.rest

def endsWithin (p : Process) (limit : Option Nat) : Bool :=
  p.ending ≠ .hang && limit.all (p.lasts ≤ ·)

def writtenWithin : Nat → List (Nat × Write) → List Write
  | _, [] => []
  | time, (pause, w) :: ws => if pause ≤ time then w :: writtenWithin (time - pause) ws else []

def written (p : Process) : Option Nat → List Write
  | none => p.writes.map (·.2)
  | some limit => writtenWithin limit p.writes

/-- The milliseconds for which a reader waits for output that is still open after the end. -/
def drainGrace : Nat := 500

def execution (p : Process) (limit : Option Nat) (group : ProcessGroup) : Execution :=
  let ended := if p.endsWithin limit then p.lasts else limit.getD 0
  let waited :=
    match group with
    | .own => 0
    | .inherit => min drainGrace (p.held - ended)
  { exitCode := if p.endsWithin limit then p.ending.exitCode? else none
    stdout := Write.onto .out (p.written limit)
    stderr := Write.onto .err (p.written limit)
    duration := ended + waited }

end Process

/-- What a program does when it is called in a certain way. What it writes at once comes before what
it writes `later`. -/
structure Rule where
  program : String
  args : Option String
  has : List String
  executable : Bool
  echoArgs : Bool
  listFiles : Bool
  stdout : Bytes
  stderr : Bytes
  later : List (Nat × Write)
  rest : Nat
  held : Nat
  ending : Ending
  deriving DecidableEq, Repr

namespace Call

/-- Writes `shown` for each occurrence of the non-empty text `hidden :: more`, from left to right;
`skip` characters belong to the occurrence just passed. -/
def replaceFrom (hidden : Char) (more shown : List Char) : Nat → List Char → List Char
  | _, [] => []
  | skip + 1, _ :: cs => replaceFrom hidden more shown skip cs
  | 0, c :: cs =>
      if c = hidden ∧ more.isPrefixOf cs then
        shown ++ replaceFrom hidden more shown more.length cs
      else c :: replaceFrom hidden more shown 0 cs

def hidePath (path shown text : String) : String :=
  match path.toList with
  | [] => text
  | c :: cs => String.ofList (replaceFrom c cs shown.toList 0 text.toList)

def shownArgs (c : Call) : List String := c.args.map (hidePath c.dir.text "<DIR>")

def shown (c : Call) : List String := c.program :: c.shownArgs

end Call

namespace Rule

def fits (r : Rule) (c : Call) : Bool :=
  r.program = c.program && r.args.all (· = " ".intercalate c.args) && r.has.all c.args.contains

def unmatched (program : String) : Rule :=
  { program, args := none, has := [], executable := true, echoArgs := false, listFiles := false,
    stdout := [], stderr := Text.Utf8.encode "stub: no rule\n", later := [], rest := 0, held := 0,
    ending := .exit 127 }

def listing (files : List (String × Bytes)) : String :=
  String.join (files.map fun f => f.1 ++ " " ++ Text.Decimal.ofNat f.2.length ++ "\n")

def output (r : Rule) (c : Call) (files : FileTree) : Bytes :=
  (if r.echoArgs then Text.Utf8.encode (String.join (c.shownArgs.map (· ++ "\n"))) else []) ++
  (if r.listFiles then Text.Utf8.encode (listing (files.filesBelow c.dir)) else []) ++ r.stdout

def process (r : Rule) (c : Call) (files : FileTree) : Process :=
  ⟨(0, ⟨.out, r.output c files⟩) :: (0, ⟨.err, r.stderr⟩) :: r.later, r.rest, r.ending, r.held⟩

end Rule

/-- A program that can do more than write: given the time that it has, its arguments and the
directory it is started in. -/
structure Resident where
  program : String
  run : Option Nat → List String → Location → StateM World Process

/-- The programs that can be started, those of a table and others, the place for scratch directories
and the bytes that there are for the arguments of a program. -/
structure Machine where
  rules : List Rule
  scratch : Scratch
  residents : List Resident
  argumentRoom : Nat

namespace Machine

def bare : Machine := ⟨[], .numbered ["tmp"] "gitmark-", [], 2 * 1024 * 1024⟩

def ofRules (rules : List Rule) : Machine := { bare with rules }

def resident? (m : Machine) (program : String) : Option Resident :=
  m.residents.find? (·.program = program)

def argumentTooLong (arg : String) : Bool := 1 <<< 17 ≤ byteLength arg

/-- Each argument takes room for a byte after its last one and for its address. -/
def argumentSize (command : List String) : Nat :=
  command.foldr (fun arg size => byteLength arg + 9 + size) 0

def lacksRoom (m : Machine) (c : Call) : Bool :=
  c.args.any argumentTooLong || m.argumentRoom < argumentSize (c.program :: c.args)

def unlisted? (m : Machine) (program : String) (missing : SystemError) : Option SystemError :=
  match m.rules.find? (·.program = program) with
  | none => some missing
  | some rule => if rule.executable then none else some .permissionDenied

/-- Why there is no program of a name. A name with a slash has to lead to a file that the table has a
program for; any other has to be in the table, and be neither empty nor one or two dots. -/
def absence? (m : Machine) (files : FileTree) (dir : Location) (program : String) :
    Option SystemError :=
  if program.toList.contains '/' then
    match files.locate dir program >>= files.read with
    | .error .isDirectory => some .permissionDenied
    | .error e => some e
    | .ok _ => m.unlisted? program .permissionDenied
  else if nameTooLong program then some .nameTooLong
  else if program = "" then some .notFound
  else if program = "." ∨ program = ".." then some .permissionDenied
  else m.unlisted? program .notFound

def refusal? (m : Machine) (files : FileTree) (c : Call) : Option SystemError :=
  let absence :=
    match m.resident? c.program with
    | some _ => none
    | none => m.absence? files c.dir c.program
  match absence with
  | some e => some e
  | none => if m.lacksRoom c then some .argumentTooLong else none

def rule (m : Machine) (c : Call) : Rule :=
  (m.rules.find? (·.fits c)).getD (.unmatched c.program)

def launch (m : Machine) (limit : Option Nat) (c : Call) : StateM World Process := do
  match m.resident? c.program with
  | some resident => resident.run limit c.args c.dir
  | none => return (m.rule c).process c (← get).files

def admission (m : Machine) (files : FileTree) (place : Place) (program : String)
    (args : List String) : Except SystemError Call := do
  if hasNul program || args.any hasNul then throw .nulInArgument
  let dir ← place.mapError SystemError.inArgument >>= files.directory?
  match m.refusal? files ⟨program, args, dir⟩ with
  | some e => throw e
  | none => return ⟨program, args, dir⟩

theorem admission_ok {m : Machine} {files : FileTree} {place : Place} {program : String}
    {args : List String} {call : Call} (h : m.admission files place program args = .ok call) :
    ∃ dir, place = .ok dir ∧ call = ⟨program, args, dir⟩ := by
  unfold admission at h
  split at h
  · cases h
  · obtain ⟨dir, hdir, h⟩ := exists_of_bind_ok h
    obtain ⟨base, hbase, hdir⟩ := exists_of_bind_ok hdir
    obtain rfl := FileTree.directory?_ok hdir
    split at h <;> cases h
    exact ⟨_, of_mapError_ok hbase, rfl⟩

def start (m : Machine) (place : Place) (limit : Option Nat) (group : ProcessGroup)
    (program : String) (args : List String) : Act SystemError Execution := do
  let call ← Act.lift (m.admission (← get).files place program args)
  World.log call
  return (← m.launch limit call).execution limit group

theorem run_start (m : Machine) (place : Place) (limit : Option Nat) (group : ProcessGroup)
    (program : String) (args : List String) (w : World) :
    (m.start place limit group program args).run w =
      match m.admission w.files place program args with
      | .error e => (.error e, w)
      | .ok call =>
          let ran := (m.launch limit call).run { w with calls := w.calls ++ [call] }
          (.ok (ran.1.execution limit group), ran.2) := by
  have hget : (get : Act SystemError World).run w = (.ok w, w) := rfl
  rw [start, Act.run_bind, hget]
  dsimp only
  rw [Act.run_bind, Act.run_lift]
  cases m.admission w.files place program args <;> rfl

def executeWith (m : Machine) (group : ProcessGroup) (place : Place) (timeout : Nat)
    (command : List String) : Act ProcessError Execution :=
  if timeout = 0 then throw (.invalidCommand "timeout must be positive")
  else match command with
    | [] => throw (.invalidCommand "empty command")
    | program :: args =>
        (m.start place (some timeout) group program args).mapError (.spawn program)

abbrev execute (m : Machine) (place : Place) (timeout : Nat) (command : List String) :
    Act ProcessError Execution := m.executeWith .own place timeout command

end Machine

end CommitMarking
