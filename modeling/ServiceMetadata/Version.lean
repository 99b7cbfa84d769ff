import ServiceMetadata.Error
import ServiceMetadata.FileTree.Basic
import ServiceMetadata.Pom

/-! # Versions

The version of a descriptor is the one its record gives; else the first line of the file `VERSION`
of the project; else the version in its `pom.xml`. Only for a data source of a project without
`pom.xml` there is a version that says none is known. -/
namespace ServiceMetadata

inductive DescriptorKind where
  | service | dataSource
  deriving DecidableEq, Repr

def unknownVersion : String := "0.0.0.UNKNOWN"

def DescriptorKind.versionWithoutPom : DescriptorKind → Option String
  | .service => none
  | .dataSource => some unknownVersion

def lineFeed : UInt8 := 10
def carriageReturn : UInt8 := 13

/-- The bytes before the first line feed, without carriage returns at their end. -/
def lineBytes (bytes : List UInt8) : List UInt8 :=
  ((bytes.takeWhile (· ≠ lineFeed)).reverse.dropWhile (· = carriageReturn)).reverse

def firstLine (bytes : ByteArray) : Option String :=
  (String.fromUTF8? (lineBytes bytes.data.toList).toByteArray).filter (· ≠ "")

def versionPath (directory : String) : String := Path.join directory "VERSION"

def pomPath (directory : String) : String := Path.join directory "pom.xml"

def versionPaths (directory : String) : List String := [versionPath directory, pomPath directory]

structure Project where
  tree : FileTree
  directory : String

def FileTree.pomVersion (t : FileTree) (path : String) : Except Error (Option String) :=
  match t.readText path with
  | .error e => .error (.file path e)
  | .ok text =>
    match Pom.version text with
    | .error e => .error (.xml path e)
    | .ok version => .ok version

namespace Project

def versionLine (p : Project) : Option String :=
  match p.tree.read (versionPath p.directory) with
  | .ok bytes => firstLine bytes
  | .error _ => none

/-- A project descriptor that cannot be read gives no version. -/
def versionFromPom (p : Project) (kind : DescriptorKind) : Option String :=
  if p.tree.isPresent (pomPath p.directory) then
    match p.tree.pomVersion (pomPath p.directory) with
    | .ok version => version
    | .error _ => none
  else kind.versionWithoutPom

def version (p : Project) (kind : DescriptorKind) (explicit : Option String) : Option String :=
  match explicit.filter (· ≠ "") with
  | some v => some v
  | none =>
    match p.versionLine with
    | some line => some line
    | none => p.versionFromPom kind

end Project
end ServiceMetadata
