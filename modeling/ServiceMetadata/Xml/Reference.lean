import ServiceMetadata.Xml.Error

/-! # Character and entity references

Replaces the references in a run of character data: the five named ones, and those by number. -/
namespace ServiceMetadata.Xml
open ServiceMetadata.Text (sizeOfText leadByte)

def readCode (base : Nat) (digit : Char → Option Nat) (bad : Char → ReferenceError) (code : Nat) :
    List Char → Except ReferenceError Nat
  | [] => .ok code
  | c :: rest =>
    match digit c with
    | some d => readCode base digit bad (code * base + d) rest
    | none => .error (bad (leadByte c))

def decimalDigit (c : Char) : Option Nat :=
  if '0' ≤ c && c ≤ '9' then some (c.toNat - '0'.toNat) else none

def hexadecimalDigit (c : Char) : Option Nat :=
  if '0' ≤ c && c ≤ '9' then some (c.toNat - '0'.toNat)
  else if 'a' ≤ c && c ≤ 'f' then some (c.toNat - 'a'.toNat + 10)
  else if 'A' ≤ c && c ≤ 'F' then some (c.toNat - 'A'.toNat + 10)
  else none

/-- The number of a reference by number, which has at most seven decimal or six hexadecimal digits.
-/
def referenceCode : List Char → Except ReferenceError Nat
  | 'x' :: digits =>
    if 6 < sizeOfText digits then .error .longHexadecimal
    else readCode 16 hexadecimalDigit .badHexadecimal 0 digits
  | digits =>
    if 7 < sizeOfText digits then .error .longDecimal
    else readCode 10 decimalDigit .badDecimal 0 digits

def characterOfCode (start stop code : Nat) : Except ReferenceError Char :=
  if code = 0 then .error (.nullCharacter start stop)
  else if code.isValidChar then .ok (Char.ofNat code)
  else .error (.notACharacter code)

def referenceCharacter (start stop : Nat) (name : List Char) : Except ReferenceError Char :=
  match name with
  | '#' :: number => do characterOfCode start stop (← referenceCode number)
  | ['l', 't'] => .ok '<'
  | ['g', 't'] => .ok '>'
  | ['a', 'm', 'p'] => .ok '&'
  | ['a', 'p', 'o', 's'] => .ok '\''
  | ['q', 'u', 'o', 't'] => .ok '"'
  | _ => .error (.unknown (start + 1) stop name)

/-- Replaces the references from byte `place` on in a run of `size` bytes. Inside a reference,
`inside` has the place of its `&` and what has been read of its name, last first. -/
def replaceFrom (size place : Nat) (inside : Option (Nat × List Char)) :
    List Char → Except ReferenceError (List Char)
  | [] =>
    match inside with
    | none => .ok []
    | some (start, _) => .error (.unterminated start size)
  | c :: rest =>
    match inside with
    | none =>
      if c = '&' then replaceFrom size (place + 1) (some (place, [])) rest
      else (replaceFrom size (place + c.utf8Size) none rest).map (c :: ·)
    | some (start, name) =>
      if c = ';' then do
        let character ← referenceCharacter start place name.reverse
        return character :: (← replaceFrom size (place + 1) none rest)
      else if c = '&' then .error (.unterminated start size)
      else replaceFrom size (place + c.utf8Size) (some (start, c :: name)) rest

def unescape (run : List Char) : Except ReferenceError (List Char) :=
  replaceFrom (sizeOfText run) 0 none run

end ServiceMetadata.Xml
