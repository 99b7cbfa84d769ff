import ServiceMetadata.Xml.Namespace
import ServiceMetadata.Xml.Reference

/-! # Reading an XML text

A reader goes through a text piece by piece. It keeps the names of the elements that are open, each
with the namespaces in force inside it, and checks that every end tag closes the innermost one. -/
namespace ServiceMetadata.Xml

structure Name where
  uri : Option (List Char)
  localName : List Char
  deriving DecidableEq, Repr

/-- What a reader comes upon. Character data has its references left in. -/
inductive Event where
  | text (run : List Char)
  | cdata (content : List Char)
  | start (name : Name)
  | stop
  | other
  deriving DecidableEq, Repr

structure OpenElement where
  name : List Char
  scope : Scope
  deriving DecidableEq, Repr

structure Reader where
  opened : List OpenElement
  rest : List Char
  deriving DecidableEq, Repr

namespace Reader

/-- A byte order mark in front is no part of the text. -/
def ofText (s : List Char) : Reader :=
  { opened := [], rest := match s with | '\uFEFF' :: r => r | _ => s }

def scope (r : Reader) : Scope :=
  match r.opened with
  | [] => Scope.initial
  | e :: _ => e.scope

/-- The name in an end tag: what stands there without the spaces at its end, unless it is all
spaces. -/
def stopName (content : List Char) : List Char :=
  if content.all isSpace then content else (content.reverse.dropWhile isSpace).reverse

def meet (r : Reader) : Markup → Except Error (Event × List OpenElement)
  | .text run => .ok (.text run, r.opened)
  | .cdata content => .ok (.cdata content, r.opened)
  | .aside => .ok (.other, r.opened)
  | .single tag => do
    let _ ← r.scope.enter (attributes tag.attributes)
    return (.other, r.opened)
  | .start tag => do
    let scope ← r.scope.enter (attributes tag.attributes)
    let name : Name := { uri := scope.namespaceOf tag.name, localName := Xml.localName tag.name }
    return (.start name, { name := tag.name, scope } :: r.opened)
  | .stop content =>
    match r.opened with
    | [] => .error (.mismatchedEnd [] content)
    | e :: outer =>
      if stopName content = e.name then .ok (.stop, outer)
      else .error (.mismatchedEnd e.name (stopName content))

def next (r : Reader) : Except Error (Option (Event × Reader)) :=
  match readMarkup r.rest with
  | .error e => .error e
  | .ok none => .ok none
  | .ok (some (m, rest)) =>
    match r.meet m with
    | .error e => .error e
    | .ok (event, opened) => .ok (some (event, { opened, rest }))

theorem next_length {r r' : Reader} {event : Event} (h : r.next = .ok (some (event, r'))) :
    r'.rest.length < r.rest.length := by
  unfold next at h
  split at h
  · simp at h
  · simp at h
  · rename_i hm
    split at h
    · simp at h
    · simp only [Except.ok.injEq, Option.some.injEq, Prod.mk.injEq] at h
      rw [← h.2]
      exact readMarkup_length hm

end Reader
end ServiceMetadata.Xml
