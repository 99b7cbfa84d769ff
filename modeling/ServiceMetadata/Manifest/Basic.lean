import ServiceMetadata.Error
import ServiceMetadata.FileTree.Basic
import ServiceMetadata.Record
import ServiceMetadata.Text.WhiteSpace

/-! # Manifests

A manifest declares classes: their names, what they extend, and the metadata written on them. Names
are not blank, and no two classes have the same. -/
namespace ServiceMetadata
open ServiceMetadata.Json (Shape)

inductive ElementKind where
  | classKind | interfaceKind | enumKind | annotationKind | recordKind
  deriving DecidableEq, Repr

def ElementKind.spelling : ElementKind → String
  | .classKind => "class"
  | .interfaceKind => "interface"
  | .enumKind => "enum"
  | .annotationKind => "annotation"
  | .recordKind => "record"

def ElementKind.all : List ElementKind :=
  [.classKind, .interfaceKind, .enumKind, .annotationKind, .recordKind]

def ElementKind.variants : List (String × ElementKind) :=
  ElementKind.all.map fun k => (k.spelling, k)

structure ClassDecl where
  name : String
  kind : ElementKind := .classKind
  isAbstract : Bool := false
  extends? : Option String := none
  common : Option ServiceRecord := none
  service : Option ServiceRecord := none
  dataSource : Option DataSourceRecord := none
  deriving DecidableEq

structure Manifest where
  classes : List ClassDecl
  deriving DecidableEq

def ClassDecl.shape : Shape ClassDecl where
  name := "ClassDecl"
  closed := true
  initial := { name := "" }
  fields := [
    .requiredText "name" (·.name) fun v r => { r with name := v },
    .variant "kind" ElementKind.variants ElementKind.spelling (·.kind)
      fun v r => { r with kind := v },
    .flag "abstract" (·.isAbstract) fun v r => { r with isAbstract := v },
    .optionalText "extends" (·.extends?) fun v r => { r with extends? := v },
    .optionalRecord "common" ServiceRecord.shape (·.common) fun v r => { r with common := v },
    .optionalRecord "service" ServiceRecord.shape (·.service) fun v r => { r with service := v },
    .optionalRecord "data_source" DataSourceRecord.shape (·.dataSource)
      fun v r => { r with dataSource := v }]

def Manifest.shape : Shape Manifest where
  name := "Manifest"
  closed := false
  initial := { classes := [] }
  fields := [.records "classes" ClassDecl.shape (·.classes) fun v _ => { classes := v }]

/-- Looks for the first declaration whose name is blank or one of `seen` or of those before it. -/
def checkNames (seen : List String) : List ClassDecl → Except ManifestError Unit
  | [] => .ok ()
  | d :: rest =>
    if Text.isBlank d.name.toList then .error .blankName
    else if d.name ∈ seen then .error (.repeatedName d.name)
    else checkNames (d.name :: seen) rest

namespace Manifest

def check (m : Manifest) : Except ManifestError Unit := checkNames [] m.classes

def parse (text : String) : Except Error Manifest :=
  match shape.parse text with
  | .error e => .error (.json e)
  | .ok m =>
    match m.check with
    | .error e => .error (.manifest e)
    | .ok _ => .ok m

def load (t : FileTree) (path : String) : Except Error Manifest :=
  match t.readText path with
  | .error e => .error (.file path e)
  | .ok text => parse text

end Manifest
end ServiceMetadata
