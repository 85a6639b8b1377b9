import CommitMarking.Stamp

namespace CommitMarking

abbrev Bytes := List UInt8

/-- A file's content before and after a commit. Empty content stands for an absent file. -/
structure Entry where
  path : String
  before : Bytes
  after : Bytes
  deriving DecidableEq, Repr

structure Commit where
  id : String
  title : String
  parent : Option String
  time : Option Stamp
  entries : List Entry
  deriving DecidableEq, Repr

namespace Entry

def size (e : Entry) : Int64 := Int64.ofNat e.after.length - Int64.ofNat e.before.length

def changed (e : Entry) : Bool := e.size ≠ 0

def isDeletion (e : Entry) : Bool := e.after.isEmpty && !e.before.isEmpty

def sizeText (size : Int64) : String := Text.Decimal.signed size.toInt ++ " bytes"

def text (e : Entry) : String := e.path ++ " (" ++ sizeText e.size ++ ")"

end Entry

namespace Commit

def shortId (c : Commit) : String := String.ofList (c.id.toList.take 12)

def isFirst (c : Commit) : Bool := c.parent.isNone

def size (c : Commit) : Int64 := (c.entries.map Entry.size).sum

end Commit

end CommitMarking
