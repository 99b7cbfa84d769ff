import ServiceMetadata.Json.Token
import ServiceMetadata.Json.Value

/-! # JSON as it is read

A text is read into a tree in which the fault that ends the reading, if there is one, stands at its
place: as the last item or member of every list and object it lies in. A reader walks the tree in
the order of the text, so it comes upon the fault exactly if nothing before stops it. -/
namespace ServiceMetadata.Json
open ServiceMetadata.Text (Symbol)

inductive Key where
  | string (s : Except SyntaxError String)
  | fault (f : Fault)

inductive Node where
  | null
  | bool (b : Bool)
  | number (n : Number)
  | string (s : Except SyntaxError String)
  | array (items : List Node)
  | object (members : List (Key × Node))
  | fault (f : Fault)

/-- A list or object that waits for a value; what it holds already comes last first. -/
inductive Frame where
  | items (done : List Node)
  | member (done : List (Key × Node)) (key : Key)

inductive Expect where
  | value (afterComma : Bool) (frames : List Frame)
  | firstItem (frames : List Frame)
  | itemEnd (done : List Node) (frames : List Frame)
  | key (afterComma : Bool) (done : List (Key × Node)) (frames : List Frame)
  | colon (done : List (Key × Node)) (name : Key) (frames : List Frame)
  | memberEnd (done : List (Key × Node)) (frames : List Frame)
  | nothing (root : Node)

def plug (n : Node) : List Frame → Expect
  | [] => .nothing n
  | .items done :: rest => .itemEnd (n :: done) rest
  | .member done key :: rest => .memberEnd ((key, n) :: done) rest

def enclose (n : Node) : List Frame → Node
  | [] => n
  | .items done :: rest => enclose (.array (n :: done).reverse) rest
  | .member done key :: rest => enclose (.object ((key, n) :: done).reverse) rest

def Expect.abandon (f : Fault) : Expect → Node
  | .value _ frames => enclose (.fault f) frames
  | .firstItem frames => enclose (.array [.fault f]) frames
  | .itemEnd done frames => enclose (.array (.fault f :: done).reverse) frames
  | .key _ done frames | .memberEnd done frames =>
    enclose (.object ((.fault f, .fault f) :: done).reverse) frames
  | .colon done name frames => enclose (.object ((name, .fault f) :: done).reverse) frames
  | .nothing root => root

def Expect.atEnd : Expect → Fault
  | .firstItem _ => { reading := .endInList, closing := .endInList }
  | .value _ _ => { reading := .endInValue }
  | .itemEnd _ _ => { reading := .endInList, closing := .endInList }
  | .key false _ _ => { reading := .endInObject, asKey := .endInObject }
  | .key true _ _ => { reading := .expectedValue, skipping := .endInObject, asKey := .endInValue }
  | .colon _ _ _ => { reading := .endInObject }
  | .memberEnd _ _ => { reading := .endInObject, asKey := .endInObject }
  | .nothing _ => { reading := .endInValue }

def Literal.node : Literal → Node
  | .null => .null
  | .true => .bool Bool.true
  | .false => .bool Bool.false

def beginValue (frames : List Frame) : Token → Expect ⊕ Fault
  | .literal l => .inl (plug l.node frames)
  | .number n => .inl (plug (.number n) frames)
  | .string s => .inl (plug (.string s) frames)
  | .openList => .inl (.firstItem frames)
  | .openObject => .inl (.key false [] frames)
  | .brokenString f | .broken f => .inr f
  | .closeList | .closeObject | .comma | .colon | .stray => .inr { reading := .expectedValue }

/-- The step that a token takes, or the whole tree if it cannot be right. -/
def Expect.step (e : Expect) (t : Token) : Expect ⊕ Node :=
  match e with
  | .value afterComma frames =>
    match t, afterComma with
    | .closeList, true =>
      .inr (e.abandon
        { reading := .trailingComma, skipping := .expectedValue, closing := .trailingComma })
    | _, _ =>
      match beginValue frames t with
      | .inl next => .inl next
      | .inr f => .inr (e.abandon f)
  | .firstItem frames =>
    match t with
    | .closeList => .inl (plug (.array []) frames)
    | _ =>
      match beginValue (.items [] :: frames) t with
      | .inl next => .inl next
      | .inr f => .inr (e.abandon f)
  | .itemEnd done frames =>
    match t with
    | .comma => .inl (.value true (.items done :: frames))
    | .closeList => .inl (plug (.array done.reverse) frames)
    | _ => .inr (e.abandon { reading := .expectedListComma })
  | .key afterComma done frames =>
    match t with
    | .string s => .inl (.colon done (.string s) frames)
    | .brokenString f => .inr (e.abandon { f with reading := .expectedValue })
    | .closeObject =>
      if afterComma then
        .inr (e.abandon
          { reading := .expectedValue, skipping := .keyMustBeAString, asKey := .trailingComma })
      else .inl (plug (.object done.reverse) frames)
    | _ => .inr (e.abandon { reading := .expectedValue, skipping := .keyMustBeAString })
  | .colon done name frames =>
    match t with
    | .colon => .inl (.value false (.member done name :: frames))
    | _ => .inr (e.abandon { reading := .expectedColon })
  | .memberEnd done frames =>
    match t with
    | .comma => .inl (.key true done frames)
    | .closeObject => .inl (plug (.object done.reverse) frames)
    | _ =>
      .inr (e.abandon
        { reading := .expectedValue, skipping := .expectedObjectComma,
          asKey := .expectedObjectComma })
  | .nothing root => .inr root

def build : Expect → List Token → Node × List Token
  | .nothing root, rest => (root, rest)
  | e, [] => (e.abandon e.atEnd, [])
  | e, t :: rest =>
    match e.step t with
    | .inl next => build next rest
    | .inr root => (root, rest)

structure Reading where
  root : Node
  more : Bool

def readSymbolsAsNode (s : List Symbol) : Reading :=
  let (root, rest) := build (.value false []) (tokens s)
  { root, more := !rest.isEmpty }

def Reading.ofString (s : String) : Reading := readSymbolsAsNode (Text.symbolsOfString s)

mutual

def Node.ofValue : Value → Node
  | .null => .null
  | .bool b => .bool b
  | .number n => .number n
  | .string s => .string (.ok s)
  | .array items => .array (nodesOfItems items)
  | .object members => .object (nodesOfMembers members)

def nodesOfItems : List Value → List Node
  | [] => []
  | v :: items => Node.ofValue v :: nodesOfItems items

def nodesOfMembers : List (String × Value) → List (Key × Node)
  | [] => []
  | (k, v) :: members => (.string (.ok k), Node.ofValue v) :: nodesOfMembers members

end

def Key.read : Key → Except SyntaxError String
  | .string s => s
  | .fault f => .error f.asKey

def Key.skip : Key → Except SyntaxError Unit
  | .string _ => .ok ()
  | .fault f => .error f.skipping

def greatestDepth : Nat := 127

mutual

/-- Passes over a value, looking only for where it ends. -/
def Node.skip : Node → Except SyntaxError Unit
  | .fault f => .error f.skipping
  | .array items => skipItems items
  | .object members => skipMembers members
  | _ => .ok ()

def skipItems : List Node → Except SyntaxError Unit
  | [] => .ok ()
  | n :: rest => do n.skip; skipItems rest

def skipMembers : List (Key × Node) → Except SyntaxError Unit
  | [] => .ok ()
  | (key, n) :: rest => do key.skip; n.skip; skipMembers rest

end

mutual

def Node.value (depth : Nat) : Node → Except SyntaxError Value
  | .null => .ok .null
  | .bool b => .ok (.bool b)
  | .number n => if n.quantity.isSome then .ok (.number n) else .error .numberOutOfRange
  | .string s => s.map .string
  | .array items =>
    if depth < greatestDepth then (valuesOfItems (depth + 1) items).map .array
    else .error .recursionLimit
  | .object members =>
    if depth < greatestDepth then (valuesOfMembers (depth + 1) members).map .object
    else .error .recursionLimit
  | .fault f => .error f.reading

def valuesOfItems (depth : Nat) : List Node → Except SyntaxError (List Value)
  | [] => .ok []
  | n :: rest => do return (← n.value depth) :: (← valuesOfItems depth rest)

def valuesOfMembers (depth : Nat) : List (Key × Node) → Except SyntaxError (List (String × Value))
  | [] => .ok []
  | (key, n) :: rest => do
    let k ← key.read
    let v ← n.value depth
    return (k, v) :: (← valuesOfMembers depth rest)

end

end ServiceMetadata.Json
