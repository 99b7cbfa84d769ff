import ServiceMetadata.Json.Node
import ServiceMetadata.Text.Quoted
import ServiceMetadata.Text.SortedTable

/-! # Records in JSON

A `Shape` says how a record type stands in JSON: field by field, under which name, how the field is
read and how it is written. From it come the reader and the writer of the type. A record may be
spelled as an object, or as the list of its fields in order; fields that are left out keep their
initial values. -/
namespace ServiceMetadata.Json
open ServiceMetadata.Text (SortedTable)

inductive Found where
  | null | list | object
  | bool (b : Bool)
  | quantity (q : Quantity)
  | string (s : String)

def Found.message : Found → String
  | .null => "null"
  | .list => "sequence"
  | .object => "map"
  | .bool b => "boolean `" ++ toString b ++ "`"
  | .quantity (.integer n) => "integer `" ++ toString n ++ "`"
  | .quantity (.float f) => "floating point `" ++ Decimal.writeFloat floatLayout f ++ "`"
  | .string s => "string " ++ Text.quote s

inductive DataError where
  | invalidType (found : Found) (wanted : String)
  | invalidValue (found : Found) (wanted : String)
  | invalidLength (length : Nat) (wanted : String)
  | unknownField (name : String) (known : List String)
  | unknownVariant (name : String) (known : List String)
  | missingField (name : String)
  | duplicateField (name : String)
  | noVariant (type : String)

def ticked (name : String) : String := "`" ++ name ++ "`"

def oneOf : List String → String
  | [] => "there are no fields"
  | [a] => "expected " ++ ticked a
  | [a, b] => "expected " ++ ticked a ++ " or " ++ ticked b
  | names => "expected one of " ++ ", ".intercalate (names.map ticked)

def DataError.message : DataError → String
  | .invalidType found wanted => "invalid type: " ++ found.message ++ ", expected " ++ wanted
  | .invalidValue found wanted => "invalid value: " ++ found.message ++ ", expected " ++ wanted
  | .invalidLength n wanted => "invalid length " ++ toString n ++ ", expected " ++ wanted
  | .unknownField name known => "unknown field " ++ ticked name ++ ", " ++ oneOf known
  | .unknownVariant name known => "unknown variant " ++ ticked name ++ ", " ++ oneOf known
  | .missingField name => "missing field " ++ ticked name
  | .duplicateField name => "duplicate field " ++ ticked name
  | .noVariant type => "data did not match any variant of untagged enum " ++ type

inductive ReadError where
  | spelling (e : SyntaxError)
  | data (e : DataError)

def ReadError.message : ReadError → String
  | .spelling e => e.message
  | .data e => e.message

/-- Where a value comes from. In a text, items too many are met as stray characters; a value at hand
has a length. -/
inductive Source where
  | text | value
  deriving DecidableEq, Repr

abbrev Reader (α : Type) := Source → Node → Except ReadError α

def spelled {α : Type} : Except SyntaxError α → Except ReadError α
  | .ok a => .ok a
  | .error e => .error (.spelling e)

def Node.found : Node → Except SyntaxError Found
  | .null => .ok .null
  | .bool b => .ok (.bool b)
  | .number n =>
    match n.quantity with
    | some q => .ok (.quantity q)
    | none => .error .numberOutOfRange
  | .string s => s.map .string
  | .array _ => .ok .list
  | .object _ => .ok .object
  | .fault f => .error f.reading

/-- The answer to a value of the wrong kind. A fault in it comes first. -/
def mistyped {α : Type} (wanted : String) (n : Node) : Except ReadError α :=
  match n.found with
  | .ok found => .error (.data (.invalidType found wanted))
  | .error e => .error (.spelling e)

def readText : Reader String
  | _, .string s => spelled s
  | _, n => mistyped "a string" n

def readFlag : Reader Bool
  | _, .bool b => .ok b
  | _, n => mistyped "a boolean" n

def readTexts : Reader (List String)
  | src, .array items => items.mapM (readText src)
  | _, n => mistyped "a sequence" n

def readRows (src : Source) : List (Key × Node) → Except ReadError (List (String × String))
  | [] => .ok []
  | (key, n) :: rest => do
    let k ← spelled key.read
    let v ← readText src n
    return (k, v) :: (← readRows src rest)

/-- An object of strings. The last of several members with one key counts. -/
def readTable : Reader SortedTable
  | src, .object members => (readRows src members).map SortedTable.ofRows
  | _, n => mistyped "a map" n

def readOption {α : Type} (read : Reader α) : Reader (Option α)
  | _, .null => .ok none
  | src, n => (read src n).map some

def named {α : Type} (variants : List (String × α)) (name : String) : Except ReadError α :=
  match variants.lookup name with
  | some a => .ok a
  | none => .error (.data (.unknownVariant name (variants.map (·.1))))

def readUnit : Node → Except ReadError Unit
  | .null => .ok ()
  | n => mistyped "unit" n

def readNameInText {α : Type} (variants : List (String × α)) : Node → Except ReadError α
  | .string s => do named variants (← spelled s)
  | .object ((key, value) :: more) => do
    let a ← named variants (← spelled key.read)
    readUnit value
    match more with
    | [] => return a
    | (.fault f, _) :: _ => throw (.spelling f.reading)
    | _ => throw (.spelling .expectedValue)
  | .fault f => .error (.spelling f.naming)
  | _ => .error (.spelling .expectedValue)

def readNameInValue {α : Type} (variants : List (String × α)) : Node → Except ReadError α
  | .string s => do named variants (← spelled s)
  | .object [(key, value)] => do
    let a ← named variants (← spelled key.read)
    readUnit value
    return a
  | .object _ => .error (.data (.invalidValue .object "map with a single key"))
  | n => mistyped "string or map" n

def readName {α : Type} (variants : List (String × α)) : Reader α
  | .text, n => readNameInText variants n
  | .value, n => readNameInValue variants n

structure Field (ρ : Type) where
  name : String
  required : Bool
  read : Reader (ρ → ρ)
  write : ρ → Option Value

structure Shape (ρ : Type) where
  name : String
  closed : Bool
  fields : List (Field ρ)
  initial : ρ

namespace Shape
variable {ρ : Type} (shape : Shape ρ)

def fieldNames : List String := shape.fields.map (·.name)

def field? (name : String) : Option (Field ρ) := shape.fields.find? fun f => f.name = name

/-- Reads members into `r`; the fields named in `seen` have been read. Gives all that were read. -/
def readMembers (src : Source) (seen : List String) (r : ρ) :
    List (Key × Node) → Except ReadError (List String × ρ)
  | [] => .ok (seen, r)
  | (key, n) :: rest => do
    let name ← spelled key.read
    match shape.field? name with
    | none =>
      if shape.closed then throw (.data (.unknownField name shape.fieldNames))
      spelled n.skip
      readMembers src seen r rest
    | some field =>
      if name ∈ seen then throw (.data (.duplicateField name))
      let put ← field.read src n
      readMembers src (name :: seen) (put r) rest

def surplus (src : Source) (length : Nat) : Node → ReadError
  | .fault f => .spelling f.closing
  | _ =>
    match src with
    | .text => .spelling .trailingCharacters
    | .value => .data (.invalidLength length "fewer elements in array")

def readItems (src : Source) (length : Nat) (i : Nat) (r : ρ) :
    List (Field ρ) → List Node → Except ReadError ρ
  | [], [] => .ok r
  | [], n :: _ => .error (surplus src length n)
  | field :: fields, [] =>
    if field.required then
      let count := toString shape.fields.length ++ " elements"
      .error (.data (.invalidLength i ("struct " ++ shape.name ++ " with " ++ count)))
    else readItems src length (i + 1) r fields []
  | field :: fields, n :: items => do
    let put ← field.read src n
    readItems src length (i + 1) (put r) fields items

def read : Reader ρ
  | src, .object members => do
    let (seen, r) ← shape.readMembers src [] shape.initial members
    match shape.fields.find? fun f => f.required && f.name ∉ seen with
    | some f => throw (.data (.missingField f.name))
    | none => return r
  | src, .array items => shape.readItems src items.length 0 shape.initial shape.fields items
  | _, n => mistyped ("struct " ++ shape.name) n

def write (r : ρ) : Value :=
  .object (shape.fields.filterMap fun f => (f.write r).map fun v => (f.name, v))

def parse (text : String) : Except ReadError ρ := do
  let reading := Reading.ofString text
  let r ← shape.read .text reading.root
  if reading.more then throw (.spelling .trailingCharacters)
  return r

def ofValue (v : Value) : Except ReadError ρ := shape.read .value (Node.ofValue v)

def print (r : ρ) : String := (shape.write r).pretty

end Shape

namespace Field
variable {ρ : Type}

def text (name : String) (get : ρ → String) (put : String → ρ → ρ) : Field ρ where
  name := name
  required := false
  read src n := (readText src n).map put
  write r := some (.string (get r))

def requiredText (name : String) (get : ρ → String) (put : String → ρ → ρ) : Field ρ :=
  { text name get put with required := true }

def textList (texts : List String) : Value := .array (texts.map .string)

def texts (name : String) (get : ρ → List String) (put : List String → ρ → ρ) : Field ρ where
  name := name
  required := false
  read src n := (readTexts src n).map put
  write r := some (textList (get r))

def someTexts (name : String) (get : ρ → List String) (put : List String → ρ → ρ) : Field ρ where
  name := name
  required := false
  read src n := (readTexts src n).map put
  write r := if (get r).isEmpty then none else some (textList (get r))

def optionalText (name : String) (get : ρ → Option String) (put : Option String → ρ → ρ) :
    Field ρ where
  name := name
  required := false
  read src n := (readOption readText src n).map put
  write r := (get r).map .string

def flag (name : String) (get : ρ → Bool) (put : Bool → ρ → ρ) : Field ρ where
  name := name
  required := false
  read src n := (readFlag src n).map put
  write r := some (.bool (get r))

def someTable (name : String) (get : ρ → SortedTable) (put : SortedTable → ρ → ρ) : Field ρ where
  name := name
  required := false
  read src n := (readTable src n).map put
  write r :=
    if (get r).isEmpty then none
    else some (.object ((get r).rows.map fun row => (row.1, .string row.2)))

def variant {α : Type} (name : String) (variants : List (String × α)) (spell : α → String)
    (get : ρ → α) (put : α → ρ → ρ) : Field ρ where
  name := name
  required := false
  read src n := (readName variants src n).map put
  write r := some (.string (spell (get r)))

def optionalRecord {σ : Type} (name : String) (shape : Shape σ) (get : ρ → Option σ)
    (put : Option σ → ρ → ρ) : Field ρ where
  name := name
  required := false
  read src n := (readOption shape.read src n).map put
  write r := (get r).map shape.write

def someRecord {σ : Type} (name : String) (shape : Shape σ) (isEmpty : σ → Bool) (get : ρ → σ)
    (put : σ → ρ → ρ) : Field ρ where
  name := name
  required := false
  read src n := (shape.read src n).map put
  write r := if isEmpty (get r) then none else some (shape.write (get r))

def records {σ : Type} (name : String) (shape : Shape σ) (get : ρ → List σ)
    (put : List σ → ρ → ρ) : Field ρ where
  name := name
  required := false
  read src n :=
    match n with
    | .array items => (items.mapM (shape.read src)).map put
    | n => mistyped "a sequence" n
  write r := some (.array ((get r).map shape.write))

end Field
end ServiceMetadata.Json
