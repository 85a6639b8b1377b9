import CommitMarking.Commit
import CommitMarking.Error
import CommitMarking.FileSystem.Route
import CommitMarking.Text.Decimal
import CommitMarking.Text.Utf8

namespace CommitMarking

inductive Node
  | directory
  | file (content : Bytes)
  deriving DecidableEq, Repr

/-- What stands where, the root being a directory that needs no entry. -/
structure FileTree where
  entries : List (Location × Node)
  deriving DecidableEq, Repr

abbrev Place := Except SystemError Location

def byteLength (s : String) : Nat := (Text.Utf8.encode s).length

def nameTooLong (name : String) : Bool := 255 < byteLength name

def pathTooLong (path : String) : Bool := 4096 ≤ byteLength path

def hasNul (s : String) : Bool := s.toList.contains '\x00'

namespace FileTree

def find? (t : FileTree) (l : Location) : Option Node :=
  if l = [] then some .directory else t.entries.lookup l

def putEntry (l : Location) (n : Node) : List (Location × Node) → List (Location × Node)
  | [] => [(l, n)]
  | e :: es => if e.1 = l then (l, n) :: es else e :: putEntry l n es

def put (t : FileTree) (l : Location) (n : Node) : FileTree := ⟨putEntry l n t.entries⟩

def remove (t : FileTree) (l : Location) : FileTree :=
  ⟨t.entries.filter fun e => !l.isPrefixOf e.1⟩

def directory? (t : FileTree) (l : Location) : Place :=
  match t.find? l with
  | some .directory => .ok l
  | some (.file _) => .error .notDirectory
  | none => .error .notFound

theorem directory?_ok {t : FileTree} {l m : Location} (h : t.directory? l = .ok m) : m = l := by
  unfold directory? at h
  split at h <;> cases h
  rfl

def enter (t : FileTree) (l : Location) (step : String) : Place := do
  let l ← t.directory? l
  if step = "." then return l
  else if step = ".." then return l.dropLast
  else if nameTooLong step then throw .nameTooLong
  else if (t.find? (l ++ [step])).isSome then return l ++ [step]
  else throw .notFound

def walk (t : FileTree) (l : Location) (steps : List String) : Place := steps.foldlM t.enter l

def screen (path : String) : Except SystemError Unit :=
  if hasNul path then .error .nulInPath
  else if pathTooLong path then .error .nameTooLong
  else .ok ()

def origin (base : Location) (path : String) : Location :=
  if (Route.ofText path).rooted then [] else base

def follow (t : FileTree) (base : Location) (path : String) : Place := do
  let l ← t.walk (origin base path) (Route.ofText path).steps
  if (Route.ofText path).slash then t.directory? l else return l

def locate (t : FileTree) (base : Location) (path : String) : Place := do
  screen path
  t.follow base path

/-- The location of a path that is joined to that of `base` first. -/
def locateBelow (t : FileTree) (base : Location) (path : String) : Place := do
  screen (base.join path)
  t.follow base path

def spell (t : FileTree) (l : Location) (step : String) : Place :=
  if step ≠ "." ∧ step ≠ ".." ∧ pathTooLong (Location.text (l ++ [step])) then .error .nameTooLong
  else t.enter l step

/-- The location of a path by its own names. Only they can be too long, not the path. -/
def canonical (t : FileTree) (base : Location) (path : String) : Place := do
  if hasNul path then throw .nulInPath
  let l ← (Route.ofText path).steps.foldlM t.spell (origin base path)
  if (Route.ofText path).slash then t.directory? l else return l

def exists? (t : FileTree) (base : Location) (path : String) : Bool :=
  match t.locateBelow base path with
  | .ok _ => true
  | .error _ => false

/-- Writes a file below `base` whose directory exists. A path that ends as a directory does cannot
be written, whether there is one or not. -/
def write (t : FileTree) (base : Location) (path : String) (content : Bytes) :
    Except SystemError FileTree := do
  screen (base.join path)
  let route := Route.ofText path
  match route.steps.getLast? with
  | none => throw .isDirectory
  | some name =>
      let parent ← t.directory? (← t.walk (origin base path) route.steps.dropLast)
      if name = "." ∨ name = ".." ∨ route.slash then throw .isDirectory
      else if nameTooLong name then throw .nameTooLong
      else match t.find? (parent ++ [name]) with
        | some .directory => throw .isDirectory
        | _ => return t.put (parent ++ [name]) (.file content)

def store (t : FileTree) (base : Location) (path : String) (content : Bytes) :
    Except SystemError Unit × FileTree :=
  match t.write base path content with
  | .error e => (.error e, t)
  | .ok t => (.ok (), t)

/-- Makes the missing ones of the directories on the way down from `l`; those made before an error
stay. -/
def makeDirectories (t : FileTree) (l : Location) : List String → Except SystemError Unit × FileTree
  | [] => (.ok (), t)
  | name :: rest =>
      match t.find? (l ++ [name]) with
      | some .directory => t.makeDirectories (l ++ [name]) rest
      | some (.file _) => (.error (if rest = [] then .fileExists else .notDirectory), t)
      | none =>
          if nameTooLong name then (.error .nameTooLong, t)
          else (t.put (l ++ [name]) .directory).makeDirectories (l ++ [name]) rest

def read (t : FileTree) (l : Location) : Except SystemError Bytes :=
  match t.find? l with
  | some (.file content) => .ok content
  | some .directory => .error .isDirectory
  | none => .error .notFound

def fileBelow? (l : Location) : Location × Node → Option (String × Bytes)
  | (_, .directory) => none
  | (m, .file content) =>
      if l.isPrefixOf m then some ("/".intercalate (m.drop l.length), content) else none

def filesBelow (t : FileTree) (l : Location) : List (String × Bytes) :=
  (t.entries.filterMap (fileBelow? l)).mergeSort fun a b => decide (a.1 ≤ b.1)

def names (t : FileTree) (l : Location) : List String :=
  t.entries.filterMap fun e => if l.isPrefixOf e.1 then e.1[l.length]? else none

def numbered (stem : String) (n : Nat) : String := stem ++ Text.Decimal.padded 2 n

def freshNumbered (stem : String) (taken : List String) : String :=
  numbered stem (((List.range (taken.length + 1)).find? (numbered stem · ∉ taken)).getD 0)

theorem numbered_injective {stem : String} {m n : Nat} (h : numbered stem m = numbered stem n) :
    m = n :=
  Text.Decimal.padded_injective ((String.append_right_inj stem).1 h)

theorem exists_numbered_not_mem (stem : String) (taken : List String) :
    ∃ n ∈ List.range (taken.length + 1), numbered stem n ∉ taken := by
  refine Decidable.byContradiction fun h => ?_
  have distinct : ((List.range (taken.length + 1)).map (numbered stem)).Nodup :=
    List.pairwise_map.2 (List.nodup_range.imp fun hne he => hne (numbered_injective he))
  have within : (List.range (taken.length + 1)).map (numbered stem) ⊆ taken := fun name hn => by
    obtain ⟨n, hr, rfl⟩ := List.mem_map.1 hn
    exact Decidable.byContradiction fun hf => h ⟨n, hr, hf⟩
  exact absurd (distinct.length_le_of_subset within) (by simp)

theorem freshNumbered_not_mem (stem : String) (taken : List String) :
    freshNumbered stem taken ∉ taken := by
  obtain ⟨n, hr, hn⟩ := exists_numbered_not_mem stem taken
  cases hf : (List.range (taken.length + 1)).find? (numbered stem · ∉ taken) with
  | none => exact absurd (List.find?_eq_none.1 hf n hr) (by simpa using hn)
  | some k =>
      rw [freshNumbered, hf]
      simpa using List.find?_some hf

end FileTree

end CommitMarking
