import CommitMarking.Commit
import CommitMarking.Error
import CommitMarking.Text.Utf8

namespace CommitMarking

open Text

structure RawRecord where
  oldMode : String
  newMode : String
  oldId : String
  newId : String
  status : String
  path : String
  deriving DecidableEq, Repr

structure RawChange where
  oldId : String
  newId : String
  status : Char
  path : String
  deriving DecidableEq, Repr

namespace RawRecord

def header (r : RawRecord) : String :=
  ":" ++ " ".intercalate [r.oldMode, r.newMode, r.oldId, r.newId, r.status]

def encode (r : RawRecord) : Bytes := Utf8.encode r.header ++ 0 :: Utf8.encode r.path ++ [0]

def linkMode : String := "160000"

def isLink (r : RawRecord) : Bool := r.oldMode = linkMode || r.newMode = linkMode

def change (r : RawRecord) : RawChange :=
  ⟨r.oldId, r.newId, r.status.toList.headD 'M', r.path⟩

/-- The record of a header and a path. Colons before the first mode do not count. -/
def ofFields? (header path : String) : Option RawRecord :=
  match ((header.toList.dropWhile (· = ':')).splitOn ' ').map String.ofList with
  | [oldMode, newMode, oldId, newId, status] => some ⟨oldMode, newMode, oldId, newId, status, path⟩
  | _ => none

end RawRecord

namespace RawDiff

def records? : List Bytes → Except GitError (List RawRecord)
  | [] => .ok []
  | [header] => .error (.recordWithoutPath (Utf8.lossy header))
  | header :: path :: fields =>
      match RawRecord.ofFields? (Utf8.lossy header) (Utf8.lossy path) with
      | none => .error (.malformedRecord (Utf8.lossy header))
      | some record => (records? fields).map (record :: ·)

def fields (raw : Bytes) : List Bytes := (raw.splitOn 0).filter (· ≠ [])

def parse? (raw : Bytes) : Except GitError (List RawChange) :=
  (records? (fields raw)).map fun records =>
    (records.filter (!·.isLink)).map RawRecord.change

end RawDiff

end CommitMarking
