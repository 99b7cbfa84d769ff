import ServiceMetadata.FileTree.Error
import ServiceMetadata.FileTree.Path

/-! # File trees

A tree of directories and files with one directory marked as the current one, from which relative
paths start. There are no links, and everything may be read and written. A path is followed name by
name; what it goes through has to be there and be a directory. -/
namespace ServiceMetadata
open ServiceMetadata.Path (Name)

abbrev Location := List Name

inductive Entry where
  | directory
  | file (bytes : ByteArray)

def Entry.isSame : Entry → Entry → Bool
  | .directory, .directory => true
  | .file a, .file b => a.data = b.data
  | _, _ => false

/-- Directories and regular files only, all of which may be read and written. -/
structure FileTree where
  current : Location
  entries : List (Location × Entry)

namespace FileTree

def entry? (t : FileTree) (place : Location) : Option Entry :=
  if place = [] then some .directory else t.entries.lookup place

def put (t : FileTree) (place : Location) (e : Entry) : FileTree :=
  { t with entries := (place, e) :: t.entries.filter (·.1 ≠ place) }

def erase (t : FileTree) (place : Location) : FileTree :=
  { t with entries := t.entries.filter fun row => !place.isPrefixOf row.1 }

def follow (place : Location) (name : Name) : Except FileError Location :=
  if name = Path.here then .ok place
  else if name = Path.above then .ok place.dropLast
  else if Path.longestName < Text.sizeOfText name then .error .nameTooLong
  else .ok (place ++ [name])

def requireDirectory (t : FileTree) (place : Location) : Except FileError Unit :=
  match t.entry? place with
  | some .directory => .ok ()
  | some (.file _) => .error .notDirectory
  | none => .error .notFound

/-- Where names lead, one after the other. Nothing need be at the place that the last one leads to.
-/
def walk (t : FileTree) (place : Location) : List Name → Except FileError Location
  | [] => .ok place
  | name :: rest =>
    match t.requireDirectory place with
    | .error e => .error e
    | .ok _ =>
      match follow place name with
      | .error e => .error e
      | .ok next => t.walk next rest

def startOf (t : FileTree) (path : String) : Location :=
  if Path.isAbsolute path then [] else t.current

def checkPath (path : String) : Except FileError Unit :=
  if Path.hasNul path then .error .nulInPath
  else if path = "" then .error .notFound
  else if Path.tooLong ≤ path.utf8ByteSize then .error .nameTooLong
  else .ok ()

/-- What a path leads to. A path that ends in a slash leads to directories only. -/
def find (t : FileTree) (path : String) : Except FileError (Location × Entry) := do
  checkPath path
  let place ← t.walk (t.startOf path) (Path.names path)
  match t.entry? place with
  | none => throw .notFound
  | some .directory => return (place, .directory)
  | some (.file bytes) =>
    if Path.endsInSlash path then throw .notDirectory
    return (place, .file bytes)

def isPresent (t : FileTree) (path : String) : Bool := (t.find path).isOk

def isDirectory (t : FileTree) (path : String) : Bool :=
  match t.find path with
  | .ok (_, .directory) => true
  | _ => false

def read (t : FileTree) (path : String) : Except FileError ByteArray :=
  match t.find path with
  | .error e => .error e
  | .ok (_, .directory) => .error .isDirectory
  | .ok (_, .file bytes) => .ok bytes

def readText (t : FileTree) (path : String) : Except FileError String :=
  match t.read path with
  | .error e => .error e
  | .ok bytes =>
    match String.fromUTF8? bytes with
    | some text => .ok text
    | none => .error .notText

/-- The place of a path's last name, in a directory that is there. Fails with `taken` if the path
ends in no name of its own. -/
def target (t : FileTree) (taken : FileError) (path : String) : Except FileError Location := do
  checkPath path
  match (Path.names path).getLast? with
  | none => throw taken
  | some name =>
    let parent ← t.walk (t.startOf path) (Path.names path).dropLast
    t.requireDirectory parent
    if name = Path.here || name = Path.above then throw taken
    follow parent name

def write (t : FileTree) (path : String) (bytes : ByteArray) : Except FileError FileTree := do
  let place ← t.target .isDirectory path
  if Path.endsInSlash path then throw .isDirectory
  match t.entry? place with
  | some .directory => throw .isDirectory
  | _ => return t.put place (.file bytes)

def makeDirectory (t : FileTree) (path : String) : Except FileError FileTree := do
  let place ← t.target .alreadyExists path
  match t.entry? place with
  | some _ => throw .alreadyExists
  | none => return t.put place .directory

def makeInOrder (t : FileTree) : List String → FileTree × Option FileError
  | [] => (t, none)
  | path :: rest =>
    match t.makeDirectory path with
    | .ok t' => t'.makeInOrder rest
    | .error e =>
      if e = .alreadyExists && t.isDirectory path then t.makeInOrder rest else (t, some e)

/-- Goes up along `path` until a directory is there or can be made, then makes those below it, which
`missing` lists from the top. -/
def makeUpward (t : FileTree) (missing : List String) : List String → FileTree × Option FileError
  | [] => t.makeInOrder missing
  | path :: rest =>
    match t.makeDirectory path with
    | .ok t' => t'.makeInOrder missing
    | .error .notFound => t.makeUpward (path :: missing) rest
    | .error e =>
      if e = .alreadyExists && t.isDirectory path then t.makeInOrder missing else (t, some e)

/-- Makes a directory and those above it that are missing. Those that were made stay if one cannot
be. -/
def makeDirectories (t : FileTree) (path : String) : FileTree × Option FileError :=
  if path = "" || (Path.isAbsolute path && Path.components path = []) then (t, none)
  else t.makeUpward [] (path :: Path.parents path)

def remove (t : FileTree) (path : String) : FileTree × Bool :=
  match t.find path with
  | .ok (place, _) => (t.erase place, true)
  | .error _ => (t, false)

def below (t : FileTree) (place : Location) : List (String × Entry) :=
  t.entries.filterMap fun (l, e) =>
    if place.isPrefixOf l && place ≠ l then
      some (Path.ofNames false (l.drop place.length), e)
    else none

def changesFrom (t old : FileTree) : FileTree :=
  { t with entries := t.entries.filter fun (place, e) => !(old.entry? place).any e.isSame }

end FileTree
end ServiceMetadata
