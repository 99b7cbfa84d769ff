import ServiceMetadata.Text.WhiteSpace
import ServiceMetadata.Xml.Reader

/-! # The version in a project descriptor

A project descriptor is an XML text whose root is `project` in the descriptors' namespace. Its
version is the character data in the first child `version` in that namespace. The reading stops at
that child's end tag, or at a root that is something else. -/
namespace ServiceMetadata.Pom
open ServiceMetadata.Xml (Event Reader Name)

def namespaceUri : List Char := "http://maven.apache.org/POM/4.0.0".toList

def projectName : Name := ⟨some namespaceUri, ['p', 'r', 'o', 'j', 'e', 'c', 't']⟩
def versionName : Name := ⟨some namespaceUri, ['v', 'e', 'r', 's', 'i', 'o', 'n']⟩

/-- How far the reading has come: how many elements are open, and what has been read of the version
since its element began. -/
structure State where
  depth : Nat
  version : Option (List Char)
  deriving DecidableEq, Repr

inductive Outcome where
  | continue (s : State)
  | finished (version : Option (List Char))
  deriving DecidableEq, Repr

/-- Character data counts only after the version's element has begun. -/
def State.append (s : State) (content : List Char) : State :=
  { s with version := s.version.map (· ++ content) }

def State.step (s : State) : Event → Except Xml.Error Outcome
  | .start name =>
    if s.depth = 0 && name ≠ projectName then .ok (.finished none)
    else if s.depth = 1 && name = versionName then
      .ok (.continue { depth := s.depth + 1, version := some [] })
    else .ok (.continue { s with depth := s.depth + 1 })
  | .stop =>
    if s.depth = 2 && s.version.isSome then .ok (.finished s.version)
    else .ok (.continue { s with depth := s.depth - 1 })
  | .text run =>
    if s.version.isSome then
      match Xml.unescape run with
      | .ok content => .ok (.continue (s.append content))
      | .error e => .error (.reference e)
    else .ok (.continue s)
  | .cdata content => .ok (.continue (s.append content))
  | .other => .ok (.continue s)

def readFrom (s : State) (r : Reader) : Except Xml.Error (Option (List Char)) :=
  match _h : r.next with
  | .error e => .error e
  | .ok none => .ok s.version
  | .ok (some (event, r')) =>
    match s.step event with
    | .error e => .error e
    | .ok (.finished version) => .ok version
    | .ok (.continue s') => readFrom s' r'
termination_by r.rest.length
decreasing_by exact Reader.next_length _h

def tidy (version : Option (List Char)) : Option String :=
  match version.map Text.trim with
  | none | some [] => none
  | some v => some (String.ofList v)

def version (text : String) : Except Xml.Error (Option String) :=
  (readFrom { depth := 0, version := none } (Reader.ofText text.toList)).map tidy

end ServiceMetadata.Pom
