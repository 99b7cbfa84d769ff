import ServiceMetadata.Text.Quoted
import ServiceMetadata.Text.Symbol

/-! # Faults in an XML text -/
namespace ServiceMetadata.Xml

/-- What is wrong with a reference in character data. Places are counted in bytes from the start of
the run of character data. -/
inductive ReferenceError where
  | unterminated (start stop : Nat)
  | unknown (start stop : Nat) (name : List Char)
  | nullCharacter (start stop : Nat)
  | longDecimal
  | longHexadecimal
  | badDecimal (c : Char)
  | badHexadecimal (c : Char)
  | notACharacter (n : Nat)
  deriving DecidableEq, Repr

inductive Part where
  | bang | comment | cdata | doctype | declaration | element
  deriving DecidableEq, Repr

inductive Error where
  | mismatchedEnd (expected found : List Char)
  | reference (e : ReferenceError)
  | broken (part : Part)
  | unknownBang (c : Char)
  | emptyDoctype
  | badBinding (label uri : List Char)
  deriving DecidableEq, Repr

def rangeMessage (start stop : Nat) : String :=
  "Error while escaping character at range " ++ toString start ++ ".." ++ toString stop ++ ": "

def ReferenceError.message : ReferenceError → String
  | .unterminated start stop => rangeMessage start stop ++ "Cannot find ';' after '&'"
  | .unknown start stop name =>
    rangeMessage start stop ++ "Unrecognized escape symbol: " ++ Text.quote (String.ofList name)
  | .nullCharacter start stop => rangeMessage start stop ++ "Null character entity not allowed"
  | .longDecimal => "Cannot convert decimal to utf8"
  | .longHexadecimal => "Cannot convert hexadecimal to utf8"
  | .badDecimal c => "'" ++ String.singleton c ++ "' is not a valid decimal character"
  | .badHexadecimal c => "'" ++ String.singleton c ++ "' is not a valid hexadecimal character"
  | .notACharacter n => "'" ++ toString n ++ "' is not a valid codepoint"

def Part.name : Part → String
  | .bang => "Bang"
  | .comment => "Comment"
  | .cdata => "CData"
  | .doctype => "DOCTYPE"
  | .declaration => "XmlDecl"
  | .element => "Element"

def quoteByte (b : Nat) : List Char :=
  if b = 0x22 then ['\\', '"']
  else if 0x20 ≤ b && b < 0x7F then [Char.ofNat b]
  else '0' :: 'x' :: (Nat.toDigits 16 b).map Char.toUpper

def quoteBytes (s : List Char) : String :=
  let bytes := s.flatMap String.utf8EncodeChar
  String.ofList ('"' :: bytes.flatMap (fun b => quoteByte b.toNat) ++ ['"'])

def Error.message : Error → String
  | .mismatchedEnd expected found =>
    "Expecting </" ++ String.ofList expected ++ "> found </" ++ String.ofList found ++ ">"
  | .reference e => e.message
  | .broken part => "Unexpected EOF during reading " ++ part.name
  | .unknownBang c =>
    "Only Comment (`--`), CDATA (`[CDATA[`) and DOCTYPE (`DOCTYPE`) nodes can start with a '!'" ++
      ", but symbol `" ++ String.singleton c ++ "` found"
  | .emptyDoctype => "DOCTYPE declaration must not be empty"
  | .badBinding label uri =>
    "The namespace prefix '" ++ quoteBytes label ++ "' cannot be bound to '" ++ quoteBytes uri ++
      "'"

end ServiceMetadata.Xml
