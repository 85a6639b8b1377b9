import CommitMarking.World

namespace CommitMarking

def FileTree.makeParents (t : FileTree) (dir : Location) (path : String) :
    Except SystemError Unit × FileTree :=
  match FileTree.screen (dir.join (Route.parentText path)) with
  | .error e => (.error e, t)
  | .ok () => t.makeDirectories dir (Route.ofText path).names.dropLast

def FileTree.place (t : FileTree) (dir : Location) (path : String) (content : Bytes) :
    Except SystemError Unit × FileTree :=
  match t.makeParents dir path with
  | (.error e, t) => (.error e, t)
  | (.ok (), t) => t.store dir path content

def checkoutEntry (dir : Location) (e : Entry) : Act ProcessError String :=
  if (Route.ofText e.path).inside then do
    Act.mapError .io (Act.onFiles (·.place dir e.path e.after))
    return dir.join e.path
  else throw (.unsafePath e.path)

/-- Writes what a commit leaves of the entries that `keep` accepts, in their order, and answers with
the written paths. -/
def checkout (dir : Location) (keep : Entry → Bool) (entries : List Entry) :
    Act ProcessError (List String) :=
  (entries.filter fun e => !e.isDeletion && keep e).mapM (checkoutEntry dir)

end CommitMarking
