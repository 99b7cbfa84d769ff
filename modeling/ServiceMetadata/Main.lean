import ServiceMetadata.Command.Run

/-! # The program

Takes a picture of the files that a command may touch, runs the command on it, and carries out on
the disk what has changed. -/
namespace ServiceMetadata.Main

def locationOf (path : String) : Location := Path.names path

def diskPath (l : Location) : String := Path.ofNames true l

def look (t : FileTree) (l : Location) : IO FileTree := do
  let path := (← IO.currentDir) / diskPath l
  if ← path.isDir then return t.put l .directory
  if ← path.pathExists then return t.put l (.file (← IO.FS.readBinFile path))
  return t

def lookAlong (t : FileTree) (path : String) : IO FileTree := do
  let mut t := t
  let mut l := t.startOf path
  for name in Path.names path do
    match FileTree.follow l name with
    | .ok next =>
      l := next
      t ← look t l
    | .error _ => return t
  return t

def lookAlongAll (t : FileTree) (paths : List String) : IO FileTree := paths.foldlM lookAlong t

def carryOut (l : Location) : Entry → IO Unit
  | .directory => IO.FS.createDirAll (diskPath l)
  | .file bytes => IO.FS.writeBinFile (diskPath l) bytes

/-- Directories come before what lies in them. -/
def carryOutAll (t : FileTree) : IO Unit := do
  for (l, e) in t.entries.mergeSort fun a b => a.1.length ≤ b.1.length do
    carryOut l e

def runRequest (request : Request) : IO Response := do
  let current := locationOf (← IO.currentDir).toString
  let ancestors := (List.range current.length).map fun i => (current.take (i + 1), .directory)
  let start : FileTree := { current, entries := ancestors }
  let before ← match request with
    | .command c => do
      let t ← lookAlongAll start c.reads
      lookAlongAll t (c.writes t)
    | _ => pure start
  let (response, after) := request.run before
  carryOutAll (after.changesFrom before)
  return response

end ServiceMetadata.Main

open ServiceMetadata in
def main (args : List String) : IO UInt32 := do
  let response ← Main.runRequest (Request.ofArguments args)
  (← IO.getStdout).putStr response.output
  for message in response.messages do
    (← IO.getStderr).putStrLn message
  return response.exitCode.toUInt32
