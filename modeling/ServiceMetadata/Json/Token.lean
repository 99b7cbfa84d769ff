import ServiceMetadata.Json.Fault
import ServiceMetadata.Json.Number
import ServiceMetadata.Text.Symbol

/-! # The tokens of a JSON text

A text is cut into brackets, separators, literals, numbers and strings. A token that begins like a
literal, number or string and goes wrong ends the cutting. Strings are read twice: once for their
characters, and once only for where they end, which asks less of them. -/
namespace ServiceMetadata.Json
open ServiceMetadata.Text (Symbol symbolSize)

inductive Literal where
  | null | true | false
  deriving DecidableEq, Repr

inductive Token where
  | openList | closeList | openObject | closeObject | comma | colon
  | literal (l : Literal)
  | number (n : Number)
  /-- A string, or why its characters cannot be had although its end is known. -/
  | string (s : Except SyntaxError String)
  | brokenString (f : Fault)
  | broken (f : Fault)
  | stray

def hexValue (c : Char) : Option Nat :=
  if '0' ≤ c && c ≤ '9' then some (c.toNat - '0'.toNat)
  else if 'a' ≤ c && c ≤ 'f' then some (c.toNat - 'a'.toNat + 10)
  else if 'A' ≤ c && c ≤ 'F' then some (c.toNat - 'A'.toNat + 10)
  else none

def hexCode (a b c d : Symbol) : Option Nat :=
  match a.bind hexValue, b.bind hexValue, c.bind hexValue, d.bind hexValue with
  | some a, some b, some c, some d => some (((a * 16 + b) * 16 + c) * 16 + d)
  | _, _, _, _ => none

/-- What is wrong with a numbered escape that fewer than four symbols follow: it is wrong if four
bytes follow, and broken off if not. -/
def shortCode (rest : List Symbol) : SyntaxError :=
  if 4 ≤ rest.foldl (fun size s => size + symbolSize s) 0 then .invalidEscape else .endInString

def escapedChar : Symbol → Option Char
  | some '"' => some '"'
  | some '\\' => some '\\'
  | some '/' => some '/'
  | some 'b' => some '\x08'
  | some 'f' => some '\x0c'
  | some 'n' => some '\n'
  | some 'r' => some '\r'
  | some 't' => some '\t'
  | _ => none

def isControl : Symbol → Bool
  | some c => c.toNat < 0x20
  | none => false

/-- What follows the closing quotation mark. Numbered escapes may stand for anything here. -/
def skipString : List Symbol → Except SyntaxError (List Symbol)
  | [] => .error .endInString
  | some '"' :: rest => .ok rest
  | [some '\\'] => .error .endInString
  | some '\\' :: some 'u' :: a :: b :: c :: d :: rest =>
    match hexCode a b c d with
    | some _ => skipString rest
    | none => .error .invalidEscape
  | some '\\' :: some 'u' :: rest => .error (shortCode rest)
  | some '\\' :: e :: rest =>
    match escapedChar e with
    | some _ => skipString rest
    | none => .error .invalidEscape
  | s :: rest => if isControl s then .error .controlCharacter else skipString rest

def pairedChar (high low : Nat) : Char :=
  Char.ofNat (0x10000 + (high - 0xD800) * 0x400 + (low - 0xDC00))

def readSymbols : List Symbol → Except SyntaxError (List Symbol)
  | [] => .error .endInString
  | some '"' :: _ => .ok []
  | [some '\\'] => .error .endInString
  | some '\\' :: some 'u' :: a :: b :: c :: d :: rest =>
    match hexCode a b c d with
    | none => .error .invalidEscape
    | some n =>
      if n < 0xD800 || 0xDFFF < n then (readSymbols rest).map (some (Char.ofNat n) :: ·)
      else if 0xDC00 ≤ n then .error .loneLeadingSurrogate
      else
        match rest with
        | [] | [some '\\'] => .error .endInString
        | some '\\' :: some 'u' :: a' :: b' :: c' :: d' :: rest' =>
          match hexCode a' b' c' d' with
          | none => .error .invalidEscape
          | some low =>
            if 0xDC00 ≤ low && low ≤ 0xDFFF then
              (readSymbols rest').map (some (pairedChar n low) :: ·)
            else .error .loneLeadingSurrogate
        | some '\\' :: some 'u' :: rest' => .error (shortCode rest')
        | _ => .error .unexpectedEndOfHexEscape
  | some '\\' :: some 'u' :: rest => .error (shortCode rest)
  | some '\\' :: e :: rest =>
    match escapedChar e with
    | some c => (readSymbols rest).map (some c :: ·)
    | none => .error .invalidEscape
  | s :: rest =>
    if isControl s then .error .controlCharacter else (readSymbols rest).map (s :: ·)

def readString (s : List Symbol) : Except SyntaxError String :=
  match readSymbols s with
  | .error e => .error e
  | .ok symbols =>
    match symbols.mapM id with
    | some chars => .ok (String.ofList chars)
    | none => .error .invalidCodePoint

def isDigit : Symbol → Bool
  | some c => c.isDigit
  | none => false

def takeDigits (s : List Symbol) : List Char × List Symbol :=
  ((s.takeWhile isDigit).filterMap id, s.dropWhile isDigit)

/-- A number that stops where a digit has to follow. One who reads it for its value notices that the
text broke off. -/
def missingDigit : List Symbol → Fault
  | [] => { reading := .endInValue, skipping := .invalidNumber }
  | _ => { reading := .invalidNumber }

def readExponent (negative : Bool) (s : List Symbol) : Except Fault (Exponent × List Symbol) :=
  match takeDigits s with
  | ([], _) => .error (missingDigit s)
  | (digits, rest) => .ok ({ negative, digits }, rest)

def readExponent? : List Symbol → Except Fault (Option Exponent × List Symbol)
  | some c :: rest =>
    if c = 'e' || c = 'E' then
      match rest with
      | some '+' :: rest' => (readExponent false rest').map fun (e, r) => (some e, r)
      | some '-' :: rest' => (readExponent true rest').map fun (e, r) => (some e, r)
      | _ => (readExponent false rest).map fun (e, r) => (some e, r)
    else .ok (none, some c :: rest)
  | s => .ok (none, s)

def readFraction : List Symbol → Except Fault (List Char × List Symbol)
  | some '.' :: rest =>
    match takeDigits rest with
    | ([], _) => .error (missingDigit rest)
    | (digits, rest') => .ok (digits, rest')
  | s => .ok ([], s)

def readWhole (s : List Symbol) : Except Fault (List Char × List Symbol) :=
  match takeDigits s with
  | ([], _) => .error (missingDigit s)
  | ('0' :: _ :: _, _) => .error { reading := .invalidNumber }
  | (digits, rest) => .ok (digits, rest)

def readNumber (negative : Bool) (s : List Symbol) : Except Fault (Number × List Symbol) := do
  let (whole, s) ← readWhole s
  let (fraction, s) ← readFraction s
  let (exponent, s) ← readExponent? s
  return ({ negative, whole, fraction, exponent }, s)

def isJsonSpace (s : Symbol) : Bool :=
  s = some ' ' || s = some '\n' || s = some '\t' || s = some '\r'

def brokenToken (f : Fault) : Token × List Symbol :=
  (.broken { f with naming := .expectedValue }, [])

def readLiteral (l : Literal) : List Char → List Symbol → Token × List Symbol
  | [], s => (.literal l, s)
  | c :: rest, d :: s =>
    if d = some c then readLiteral l rest s else brokenToken { reading := .expectedIdent }
  | _ :: _, [] => brokenToken { reading := .endInValue }

def stringToken (s : List Symbol) : Token × List Symbol :=
  match skipString s with
  | .ok rest => (.string (readString s), rest)
  | .error e =>
    let seen := match readString s with
      | .error e => e
      | .ok _ => e
    (.brokenString { reading := seen, skipping := e, asKey := seen }, [])

def numberToken (negative : Bool) (s : List Symbol) : Token × List Symbol :=
  match readNumber negative s with
  | .ok (n, rest) => (.number n, rest)
  | .error f => brokenToken f

def readToken (first : Symbol) (rest : List Symbol) : Token × List Symbol :=
  match first with
  | some '[' => (.openList, rest)
  | some ']' => (.closeList, rest)
  | some '\x7b' => (.openObject, rest)
  | some '\x7d' => (.closeObject, rest)
  | some ',' => (.comma, rest)
  | some ':' => (.colon, rest)
  | some '"' => stringToken rest
  | some 'n' => readLiteral .null ['u', 'l', 'l'] rest
  | some 't' => readLiteral .true ['r', 'u', 'e'] rest
  | some 'f' => readLiteral .false ['a', 'l', 's', 'e'] rest
  | some '-' => numberToken true rest
  | some c => if c.isDigit then numberToken false (some c :: rest) else (.stray, rest)
  | none => (.stray, rest)

/-- The tokens of a text. As every token takes at least one symbol, `fuel` symbols' worth of text
has at most `fuel` tokens. -/
def tokensFrom : Nat → List Symbol → List Token
  | 0, _ => []
  | fuel + 1, s =>
    match s.dropWhile isJsonSpace with
    | [] => []
    | first :: rest =>
      let (token, rest') := readToken first rest
      token :: tokensFrom fuel rest'

def tokens (s : List Symbol) : List Token := tokensFrom s.length s

end ServiceMetadata.Json
