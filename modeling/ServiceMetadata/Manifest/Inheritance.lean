import ServiceMetadata.Manifest.Basic

/-! # Inherited metadata

A class without a record of some kind has the one of its nearest superclass that has one. A
superclass that the manifest does not declare, or that has been passed already, ends the search. -/
namespace ServiceMetadata

structure Element where
  name : String
  kind : ElementKind := .classKind
  isAbstract : Bool := false
  common : Option ServiceRecord := none
  service : Option ServiceRecord := none
  dataSource : Option DataSourceRecord := none
  deriving DecidableEq

def Element.isConcreteClass (e : Element) : Bool := e.kind = .classKind && !e.isAbstract

/-- The last declaration of a name. -/
def findClass (classes : List ClassDecl) (name : String) : Option ClassDecl :=
  classes.reverse.find? (·.name = name)

def strikeOff (classes : List ClassDecl) (name : String) : List ClassDecl :=
  classes.filter (·.name ≠ name)

theorem length_strikeOff_lt {classes : List ClassDecl} {name : String} {d : ClassDecl}
    (h : findClass classes name = some d) : (strikeOff classes name).length < classes.length := by
  have hmem := List.mem_reverse.1 (List.mem_of_find?_eq_some h)
  have hname := List.find?_some h
  exact List.length_filter_lt_length_iff_exists.2 ⟨d, hmem, by simpa using hname⟩

/-- The first record along a class and its superclasses, looked up among the declarations
`unpassed`; the name of a superclass is struck off when it is passed. -/
def inherited {α : Type} (pick : ClassDecl → Option α) (unpassed : List ClassDecl) (d : ClassDecl) :
    Option α :=
  match pick d with
  | some record => some record
  | none =>
    match d.extends? with
    | none => none
    | some parent =>
      match _h : findClass unpassed parent with
      | none => none
      | some super => inherited pick (strikeOff unpassed parent) super
termination_by unpassed.length
decreasing_by exact length_strikeOff_lt _h

def Manifest.elements (m : Manifest) : List Element :=
  m.classes.map fun d =>
    { name := d.name
      kind := d.kind
      isAbstract := d.isAbstract
      common := inherited (·.common) m.classes d
      service := inherited (·.service) m.classes d
      dataSource := inherited (·.dataSource) m.classes d }

end ServiceMetadata
