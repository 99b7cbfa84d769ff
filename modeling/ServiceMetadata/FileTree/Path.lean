import ServiceMetadata.Text.Symbol

/-! # Paths

A path is a text whose names are separated by slashes. It is absolute if it begins with one. -/
namespace ServiceMetadata.Path

abbrev Name := List Char

def isAbsolute (path : String) : Bool := path.toList.head? = some '/'

def endsInSlash (path : String) : Bool := path.toList.getLast? = some '/'

/-- A path below another, or `below` itself if that is absolute. -/
def join (above below : String) : String :=
  if isAbsolute below then below
  else if above = "" || endsInSlash above then above ++ below
  else above ++ "/" ++ below

def splitSlash : List Char → List Name
  | [] => [[]]
  | c :: rest =>
    if c = '/' then [] :: splitSlash rest
    else
      match splitSlash rest with
      | [] => [[c]]
      | name :: names => (c :: name) :: names

def names (path : String) : List Name := (splitSlash path.toList).filter (· ≠ [])

def here : Name := ['.']
def above : Name := ['.', '.']

/-- The names of a path without those that stay in place, except one that it begins with. -/
def components (path : String) : List Name :=
  match names path with
  | [] => []
  | first :: rest =>
    let rest := rest.filter (· ≠ here)
    if first = here && isAbsolute path then rest else first :: rest

def ofNames (absolute : Bool) (names : List Name) : String :=
  String.ofList ((if absolute then ['/'] else []) ++ List.intercalate ['/'] names)

/-- The paths of a path's parent, its parent's parent and so on. The root and the starting point of
a relative path are not among them. -/
def parents (path : String) : List String :=
  let cs := components path
  (List.range (cs.length - 1)).reverse.map fun i => ofNames (isAbsolute path) (cs.take (i + 1))

def hasNul (path : String) : Bool := path.toList.contains '\x00'

def tooLong : Nat := 4096

def longestName : Nat := 255

end ServiceMetadata.Path
