import ServiceMetadata.Json.Number

/-! # JSON values and how they are written

An object keeps its members in order. The written form has one item or member to a line, indented
by two spaces a level; an empty list or object stays on its line. -/
namespace ServiceMetadata.Json

inductive Value where
  | null
  | bool (b : Bool)
  | number (n : Number)
  | string (s : String)
  | array (items : List Value)
  | object (members : List (String × Value))

def hexPair (n : Nat) : List Char := [Nat.digitChar (n / 16), Nat.digitChar (n % 16)]

def escapeChar (c : Char) : List Char :=
  if c = '"' then ['\\', '"']
  else if c = '\\' then ['\\', '\\']
  else if c = '\x08' then ['\\', 'b']
  else if c = '\x0c' then ['\\', 'f']
  else if c = '\n' then ['\\', 'n']
  else if c = '\r' then ['\\', 'r']
  else if c = '\t' then ['\\', 't']
  else if c.toNat < 0x20 then ['\\', 'u', '0', '0'] ++ hexPair c.toNat
  else [c]

def writeString (s : String) : List Char := '"' :: s.toList.flatMap escapeChar ++ ['"']

def newLine (depth : Nat) : List Char := '\n' :: List.replicate (2 * depth) ' '

mutual

def Value.write (depth : Nat) : Value → List Char
  | .null => ['n', 'u', 'l', 'l']
  | .bool true => ['t', 'r', 'u', 'e']
  | .bool false => ['f', 'a', 'l', 's', 'e']
  | .number n => n.spelling
  | .string s => writeString s
  | .array [] => ['[', ']']
  | .array (v :: items) =>
    '[' :: newLine (depth + 1) ++ v.write (depth + 1) ++ writeItems (depth + 1) items ++
      newLine depth ++ [']']
  | .object [] => ['\x7b', '\x7d']
  | .object ((k, v) :: members) =>
    '\x7b' :: newLine (depth + 1) ++ writeString k ++ [':', ' '] ++ v.write (depth + 1) ++
      writeMembers (depth + 1) members ++ newLine depth ++ ['\x7d']

def writeItems (depth : Nat) : List Value → List Char
  | [] => []
  | v :: items => ',' :: newLine depth ++ v.write depth ++ writeItems depth items

def writeMembers (depth : Nat) : List (String × Value) → List Char
  | [] => []
  | (k, v) :: members =>
    ',' :: newLine depth ++ writeString k ++ [':', ' '] ++ v.write depth ++
      writeMembers depth members

end

def Value.pretty (v : Value) : String := String.ofList (v.write 0)

end ServiceMetadata.Json
