import CommitMarking.Suite.Case

namespace CommitMarking

/-- Where a host writes to: how many bytes it takes in all, and whether it can be flushed. -/
structure Sink where
  room : Option Nat
  flushes : Bool
  deriving DecidableEq, Repr

namespace Sink

def unlimited : Sink := ⟨none, true⟩

def holds (s : Sink) (size : Nat) : Bool := s.room.all (size ≤ ·)

def taken (s : Sink) (bytes : Bytes) : Bytes :=
  match s.room with
  | none => bytes
  | some n => bytes.take n

def diskFull : SystemError := .other "disk full"

def noFlush : SystemError := .other "no flush"

def writeLine (s : Sink) (document : Bytes) : Except HostError Unit × Bytes :=
  let all := document ++ Text.Utf8.encode "\n"
  let result := if !s.holds document.length then .error (.encode diskFull)
    else if !s.holds all.length then .error (.io diskFull)
    else if !s.flushes then .error (.io noFlush)
    else .ok ()
  (result, s.taken all)

end Sink

namespace Registry

def deliver (sink : Sink) (report : SuiteReport) : Except HostError SuiteReport × Bytes :=
  let (result, written) := sink.writeLine (Text.Utf8.encode (String.ofList report.encode))
  (result.map fun _ => report, written)

def serve (r : Registry) (m : Machine) (sink : Sink) (suite : String) (place : Place) :
    StateM World (Except HostError SuiteReport × Bytes) :=
  match r.get? suite with
  | none => return (.error (.unknownSuite suite), [])
  | some s => return deliver sink (← s.run m place)

def serveWithin (r : Registry) (m : Machine) (limit : Nat) (suite : String) (place : Place) :
    StateM World (Option (Except HostError SuiteReport × Bytes)) :=
  match r.get? suite with
  | none => return some (.error (.unknownSuite suite), [])
  | some s => return (← s.runWithin m place limit).map (deliver .unlimited)

end Registry

end CommitMarking
