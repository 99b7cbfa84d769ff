import ServiceMetadata.Xml.Reader

/-!
# XML trees as they are written

A tree here holds what it means and how it is written: where spaces stand, which quotation marks are
used, which characters are written as references, and which elements are single tags. Every part
carries what makes it well-formed, so that each tree has one text.
-/
namespace ServiceMetadata.Xml.Tree

/-- Characters that have a meaning of their own in tags, or in what may stand where a tag does. -/
def reserved : List Char := ['<', '>', '/', '=', '"', '\'', '!', '?', '&', ':']

def isNameChar (c : Char) : Bool := !isSpace c && c ∉ reserved

structure PlainName where
  chars : List Char
  nonempty : chars ≠ []
  allPlain : chars.all isNameChar = true

theorem PlainName.plain (n : PlainName) : ∀ c ∈ n.chars, isNameChar c = true :=
  List.all_eq_true.1 n.allPlain

structure QualifiedName where
  qualifier : Option PlainName
  localPart : PlainName

namespace QualifiedName

def render (n : QualifiedName) : List Char :=
  match n.qualifier with
  | none => n.localPart.chars
  | some q => q.chars ++ ':' :: n.localPart.chars

def first (n : QualifiedName) : PlainName := n.qualifier.getD n.localPart

end QualifiedName

structure Spaces where
  chars : List Char
  allSpaces : chars.all isSpace = true

theorem Spaces.spaces (s : Spaces) : ∀ c ∈ s.chars, isSpace c = true :=
  List.all_eq_true.1 s.allSpaces

theorem isSpace_ne {c x : Char} (h : isSpace c = true) (hx : isSpace x = false) : c ≠ x := by
  rintro rfl
  simp [hx] at h

inductive QuotationMark where
  | single | double

def QuotationMark.char : QuotationMark → Char
  | .single => '\''
  | .double => '"'

/-- What an attribute is about: something of the element, the default namespace, or the namespace
that a qualifier stands for. -/
inductive Key where
  | plain (name : QualifiedName) (notXmlns : name.first.chars ≠ xmlnsName)
  | defaultNamespace
  | namespaceOf (qualifier : PlainName)

namespace Key

def render : Key → List Char
  | plain name _ => name.render
  | defaultNamespace => xmlnsName
  | namespaceOf qualifier => xmlnsName ++ ':' :: qualifier.chars

/-- A namespace is written without references. The qualifier `xml` may be given no namespace but its
own, which no other qualifier may be given, and the like holds of `xmlns`, which has none to give. -/
def Admits (value : List Char) : Key → Prop
  | plain _ _ => True
  | defaultNamespace => '&' ∉ value
  | namespaceOf qualifier =>
    '&' ∉ value ∧
      if qualifier.chars = xmlName then value = xmlUri
      else qualifier.chars ≠ xmlnsName ∧ value ≠ xmlUri ∧ value ≠ xmlnsUri

instance (value : List Char) (k : Key) : Decidable (k.Admits value) :=
  match k with
  | plain _ _ => isTrue trivial
  | defaultNamespace => inferInstanceAs (Decidable ('&' ∉ value))
  | namespaceOf _ => inferInstanceAs (Decidable (_ ∧ _))

end Key

structure WrittenAttribute where
  before : Spaces
  separated : before.chars ≠ []
  key : Key
  beforeSign : Spaces
  afterSign : Spaces
  mark : QuotationMark
  value : List Char
  unquoted : mark.char ∉ value
  admitted : key.Admits value

namespace WrittenAttribute

def quoted (a : WrittenAttribute) : List Char := a.mark.char :: (a.value ++ [a.mark.char])

def render (a : WrittenAttribute) : List Char :=
  a.before.chars ++
    (a.key.render ++ (a.beforeSign.chars ++ '=' :: (a.afterSign.chars ++ a.quoted)))

end WrittenAttribute

structure WrittenTag where
  name : QualifiedName
  attributes : List WrittenAttribute
  after : Spaces

namespace WrittenTag

def renderRest (tag : WrittenTag) : List Char :=
  tag.attributes.flatMap (·.render) ++ tag.after.chars

def render (tag : WrittenTag) : List Char := tag.name.render ++ tag.renderRest

def renderStart (tag : WrittenTag) : List Char := '<' :: (tag.render ++ ['>'])

def renderSingle (tag : WrittenTag) : List Char := '<' :: (tag.render ++ ['/', '>'])

def renderEnd (tag : WrittenTag) (after : Spaces) : List Char :=
  '<' :: '/' :: (tag.name.render ++ (after.chars ++ ['>']))

end WrittenTag

inductive Entity where
  | lt | gt | amp | apos | quot

namespace Entity

def char : Entity → Char
  | lt => '<'
  | gt => '>'
  | amp => '&'
  | apos => '\''
  | quot => '"'

def name : Entity → List Char
  | lt => ['l', 't']
  | gt => ['g', 't']
  | amp => ['a', 'm', 'p']
  | apos => ['a', 'p', 'o', 's']
  | quot => ['q', 'u', 'o', 't']

end Entity

inductive Radix where
  | decimal | hexadecimal

namespace Radix

def base : Radix → Nat
  | decimal => 10
  | hexadecimal => 16

def mark : Radix → List Char
  | decimal => []
  | hexadecimal => ['x']

def mostDigits : Radix → Nat
  | decimal => 7
  | hexadecimal => 6

end Radix

structure Digit where
  value : Fin 16
  capital : Bool

def Digit.char (d : Digit) : Char :=
  if d.value.val < 10 then Char.ofNat ('0'.toNat + d.value.val)
  else if d.capital then Char.ofNat ('A'.toNat + (d.value.val - 10))
  else Char.ofNat ('a'.toNat + (d.value.val - 10))

def codeOfDigits (base code : Nat) (digits : List Digit) : Nat :=
  digits.foldl (fun n d => n * base + d.value.val) code

structure NumericReference where
  radix : Radix
  digits : List Digit
  inRadix : ∀ d ∈ digits, d.value.val < radix.base
  valid : (codeOfDigits radix.base 0 digits).isValidChar
  positive : codeOfDigits radix.base 0 digits ≠ 0

/-- No more digits than the greatest code point takes; leading zeros count. -/
def NumericReference.IsShort (n : NumericReference) : Prop := n.digits.length ≤ n.radix.mostDigits

instance (n : NumericReference) : Decidable n.IsShort :=
  inferInstanceAs (Decidable (n.digits.length ≤ n.radix.mostDigits))

def AllShort (ns : List NumericReference) : Prop := ∀ n ∈ ns, n.IsShort

instance (ns : List NumericReference) : Decidable (AllShort ns) :=
  inferInstanceAs (Decidable (∀ n ∈ ns, n.IsShort))

@[simp] theorem allShort_nil : AllShort [] := by simp [AllShort]

@[simp] theorem allShort_append {ns ns' : List NumericReference} :
    AllShort (ns ++ ns') ↔ AllShort ns ∧ AllShort ns' := List.forall_mem_append

inductive Piece where
  | plain (c : Char) (unescaped : c ≠ '<' ∧ c ≠ '&')
  | entity (e : Entity)
  | number (n : NumericReference)

namespace Piece

def char : Piece → Char
  | plain c _ => c
  | entity e => e.char
  | number n => Char.ofNat (codeOfDigits n.radix.base 0 n.digits)

def render : Piece → List Char
  | plain c _ => [c]
  | entity e => '&' :: (e.name ++ [';'])
  | number n => '&' :: '#' :: (n.radix.mark ++ n.digits.map (·.char) ++ [';'])

def number? : Piece → Option NumericReference
  | number n => some n
  | _ => none

end Piece

structure Cdata where
  content : List Char
  unclosed : ¬ [']', ']', '>'] <:+: content

def Cdata.render (c : Cdata) : List Char :=
  '<' :: '!' :: (cdataWord ++ (c.content ++ [']', ']', '>']))

structure Comment where
  content : List Char
  unclosed : ¬ ['-', '-'] <:+: content

def Comment.render (c : Comment) : List Char :=
  '<' :: '!' :: '-' :: '-' :: (c.content ++ ['-', '-', '>'])

structure Instruction where
  content : List Char
  nonempty : content ≠ []
  unclosed : '>' ∉ content

def Instruction.render (i : Instruction) : List Char := '<' :: '?' :: (i.content ++ ['?', '>'])

inductive Node where
  | element (tag : WrittenTag) (children : List Node) (beforeEnd : Spaces)
  | single (tag : WrittenTag)
  | text (pieces : List Piece)
  | cdata (c : Cdata)
  | comment (c : Comment)
  | instruction (i : Instruction)

mutual

def Node.render : Node → List Char
  | .element tag children beforeEnd =>
    tag.renderStart ++ (renderAll children ++ tag.renderEnd beforeEnd)
  | .single tag => tag.renderSingle
  | .text pieces => pieces.flatMap (·.render)
  | .cdata c => c.render
  | .comment c => c.render
  | .instruction i => i.render

def renderAll : List Node → List Char
  | [] => []
  | n :: ns => n.render ++ renderAll ns

end

mutual

def Node.content : Node → List Char
  | .element _ children _ => contentOf children
  | .single _ => []
  | .text pieces => pieces.map (·.char)
  | .cdata c => c.content
  | .comment _ => []
  | .instruction _ => []

def contentOf : List Node → List Char
  | [] => []
  | n :: ns => n.content ++ contentOf ns

end

mutual

def Node.numbers : Node → List NumericReference
  | .element _ children _ => numbersOf children
  | .text pieces => pieces.filterMap (·.number?)
  | _ => []

def numbersOf : List Node → List NumericReference
  | [] => []
  | n :: ns => n.numbers ++ numbersOf ns

end

inductive Aside where
  | spaces (s : Spaces)
  | comment (c : Comment)
  | instruction (i : Instruction)

def Aside.render : Aside → List Char
  | spaces s => s.chars
  | comment c => c.render
  | instruction i => i.render

inductive Root where
  | element (tag : WrittenTag) (children : List Node) (beforeEnd : Spaces)
  | single (tag : WrittenTag)

def Root.toNode : Root → Node
  | element tag children beforeEnd => .element tag children beforeEnd
  | single tag => .single tag

structure Document where
  before : List Aside
  root : Root
  after : List Aside

def Document.render (d : Document) : List Char :=
  d.before.flatMap (·.render) ++ (d.root.toNode.render ++ d.after.flatMap (·.render))

/-! ## Namespaces -/

/-- What each qualifier stands for, if anything, and what names without one belong to. -/
abbrev Environment := Option (List Char) → Option (List Char)

namespace Environment

def initial : Environment
  | none => none
  | some q => if q = xmlName then some xmlUri else if q = xmlnsName then some xmlnsUri else none

def bind (env : Environment) (qualifier : Option (List Char)) (uri : List Char) : Environment :=
  fun q => if q = qualifier then (if uri = [] then none else some uri) else env q

end Environment

def WrittenAttribute.apply (a : WrittenAttribute) (env : Environment) : Environment :=
  match a.key with
  | .plain _ _ => env
  | .defaultNamespace => env.bind none a.value
  | .namespaceOf q => if q.chars = xmlName then env else env.bind (some q.chars) a.value

def WrittenTag.environment (tag : WrittenTag) (env : Environment) : Environment :=
  tag.attributes.foldl (fun env a => a.apply env) env

def WrittenTag.nameIn (tag : WrittenTag) (env : Environment) : Name where
  uri := tag.environment env (tag.name.qualifier.map (·.chars))
  localName := tag.name.localPart.chars

end ServiceMetadata.Xml.Tree
