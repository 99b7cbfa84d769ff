import ServiceMetadata.Xml.Markup

/-! # Attributes and namespaces

The attributes `xmlns` and `xmlns:p` of a tag bind the default namespace and the namespace of `p`
for the element; the latest binding counts, and an empty one takes the namespace away. Attribute
values are compared as they stand, with references left in. -/
namespace ServiceMetadata.Xml

structure Attribute where
  key : List Char
  value : List Char
  deriving DecidableEq, Repr

def readQuoted : List Char → Option (List Char × List Char)
  | [] => none
  | q :: rest =>
    if q = '"' || q = '\'' then
      match rest.dropWhile (· ≠ q) with
      | [] => none
      | _ :: after => some (rest.takeWhile (· ≠ q), after)
    else none

def isKeyChar (c : Char) : Bool := c ≠ '=' && !isSpace c

/-- The first attribute of a tag's text, and what follows it. A key has at least one character and
goes on to the next equals sign or space. -/
def readAttribute (s : List Char) : Option (Attribute × List Char) :=
  match s.dropWhile isSpace with
  | [] => none
  | first :: rest =>
    match (rest.dropWhile isKeyChar).dropWhile isSpace with
    | '=' :: after =>
      (readQuoted (after.dropWhile isSpace)).map fun (value, after) =>
        ({ key := first :: rest.takeWhile isKeyChar, value }, after)
    | _ => none

theorem length_dropWhile_le (p : Char → Bool) (s : List Char) : (s.dropWhile p).length ≤ s.length :=
  (List.dropWhile_sublist p).length_le

theorem readQuoted_length {s value rest : List Char} (h : readQuoted s = some (value, rest)) :
    rest.length < s.length := by
  unfold readQuoted at h
  split at h
  · simp at h
  · rename_i q r
    split at h
    · split at h
      · simp at h
      · rename_i hd
        have := length_dropWhile_le (fun c => decide (c ≠ q)) r
        simp only [hd, Option.some.injEq, Prod.mk.injEq, List.length_cons] at h this ⊢
        rw [← h.2]
        omega
    · simp at h

theorem readAttribute_length {s rest : List Char} {a : Attribute}
    (h : readAttribute s = some (a, rest)) : rest.length < s.length := by
  unfold readAttribute at h
  split at h
  · simp at h
  · rename_i first r hd
    have h₁ := length_dropWhile_le isSpace s
    simp only [hd, List.length_cons] at h₁
    split at h
    · rename_i after hk
      rw [Option.map_eq_some_iff] at h
      obtain ⟨⟨value, after'⟩, hq, heq⟩ := h
      have h₂ := readQuoted_length hq
      have h₃ := length_dropWhile_le isSpace after
      have h₄ := length_dropWhile_le isSpace (r.dropWhile isKeyChar)
      have h₅ := length_dropWhile_le isKeyChar r
      simp only [hk, List.length_cons] at h₄
      simp only [Prod.mk.injEq] at heq
      rw [← heq.2]
      omega
    · simp at h

def attributes (s : List Char) : List Attribute :=
  match _h : readAttribute s with
  | none => []
  | some (a, rest) => a :: attributes rest
termination_by s.length
decreasing_by exact readAttribute_length _h

def qualifier (name : List Char) : Option (List Char) :=
  if name.contains ':' then some (name.takeWhile (· ≠ ':')) else none

def localName (name : List Char) : List Char :=
  if name.contains ':' then (name.dropWhile (· ≠ ':')).drop 1 else name

structure Binding where
  qualifier : Option (List Char)
  uri : List Char
  deriving DecidableEq, Repr

/-- The bindings in force, the latest first. -/
abbrev Scope := List Binding

def xmlUri : List Char := "http://www.w3.org/XML/1998/namespace".toList
def xmlnsUri : List Char := "http://www.w3.org/2000/xmlns/".toList
def xmlName : List Char := ['x', 'm', 'l']
def xmlnsName : List Char := ['x', 'm', 'l', 'n', 's']

def Scope.initial : Scope := [⟨some xmlName, xmlUri⟩, ⟨some xmlnsName, xmlnsUri⟩]

def Scope.declare (scope : Scope) (a : Attribute) : Except Error Scope :=
  if a.key = xmlnsName then .ok (⟨none, a.value⟩ :: scope)
  else if a.key.take 6 = xmlnsName ++ [':'] then
    let name := a.key.drop 6
    if name = xmlName then
      if a.value = xmlUri then .ok scope else .error (.badBinding name a.value)
    else if name = xmlnsName then .error (.badBinding name a.value)
    else if a.value = xmlUri || a.value = xmlnsUri then .error (.badBinding name a.value)
    else .ok (⟨if name = [] then none else some name, a.value⟩ :: scope)
  else .ok scope

def Scope.enter (scope : Scope) (as : List Attribute) : Except Error Scope :=
  as.foldlM Scope.declare scope

def Scope.namespaceOf (scope : Scope) (name : List Char) : Option (List Char) :=
  match scope.find? fun b => b.qualifier = qualifier name with
  | some b => if b.uri = [] then none else some b.uri
  | none => none

end ServiceMetadata.Xml
