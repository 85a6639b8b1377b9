import CommitMarking.CommandLine.Session

namespace CommitMarking

def nodeAt? (l : Location) : IO (Option Node) := do
  try
    if ← (← IO.FS.realPath l.text).isDir then return some .directory
    return some (.file (← IO.FS.readBinFile l.text).toList)
  catch _ => return none

def passed (base : Location) (path : String) : List Location :=
  let route := Route.ofText path
  let step (l : Location) (name : String) : Location :=
    if name = "." then l else if name = ".." then l.dropLast else l ++ [name]
  (route.steps.foldl (fun ls name => step (ls.headD []) name :: ls)
    [if route.rooted then [] else base]).reverse

def snapshot (places : List Location) : IO FileTree := do
  let mut tree : FileTree := ⟨[]⟩
  for l in places do
    if let some node ← nodeAt? l then tree := tree.put l node
  return tree

def Request.paths (r : Request) : List String :=
  r.config.toList ++
    match r.task with
    | .mark path _ _ => [path]
    | .host _ dir => [dir]

end CommitMarking

open CommitMarking

/-- Answers a command line on a machine that has no programs but its own. -/
def main (args : List String) : IO UInt32 := do
  let here := (← IO.currentDir).toString
  let dir := (Route.ofText here).steps
  let configEnv ← IO.getEnv "GITMARK_CONFIG"
  let paths := ((Request.parse configEnv args).toOption.map Request.paths).getD []
  let files ← snapshot (passed [] here ++ paths.flatMap (passed dir))
  let session : Session := ⟨.bare, dir, (← IO.appPath).toString, configEnv⟩
  let (reply, _) := (session.reply args).run (.fresh files)
  IO.print reply.stdout
  IO.eprint reply.stderr
  return reply.exitCode.toUInt32
