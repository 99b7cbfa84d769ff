/-! # Faults in a JSON text

What can be wrong with the spelling of a JSON text. One gap in a text has several names, after what
the reader who comes to it was about to do; a `Fault` holds them together. -/
namespace ServiceMetadata.Json

inductive SyntaxError where
  | expectedValue | expectedIdent | expectedColon | expectedListComma | expectedObjectComma
  | keyMustBeAString | trailingComma | trailingCharacters
  | invalidNumber | numberOutOfRange
  | invalidEscape | invalidCodePoint | loneLeadingSurrogate | unexpectedEndOfHexEscape
  | controlCharacter | recursionLimit
  | endInValue | endInList | endInObject | endInString
  deriving DecidableEq, Repr

def SyntaxError.isEnd : SyntaxError → Bool
  | .endInValue | .endInList | .endInObject | .endInString => true
  | _ => false

def SyntaxError.message : SyntaxError → String
  | .expectedValue => "expected value"
  | .expectedIdent => "expected ident"
  | .expectedColon => "expected `:`"
  | .expectedListComma => "expected `,` or `]`"
  | .expectedObjectComma => "expected `,` or `\x7d`"
  | .keyMustBeAString => "key must be a string"
  | .trailingComma => "trailing comma"
  | .trailingCharacters => "trailing characters"
  | .invalidNumber => "invalid number"
  | .numberOutOfRange => "number out of range"
  | .invalidEscape => "invalid escape"
  | .invalidCodePoint => "invalid unicode code point"
  | .loneLeadingSurrogate => "lone leading surrogate in hex escape"
  | .unexpectedEndOfHexEscape => "unexpected end of hex escape"
  | .controlCharacter => "control character (\\u0000-\\u001F) found while parsing a string"
  | .recursionLimit => "recursion limit exceeded"
  | .endInValue => "EOF while parsing a value"
  | .endInList => "EOF while parsing a list"
  | .endInObject => "EOF while parsing an object"
  | .endInString => "EOF while parsing a string"

/-- A gap in a text, as named by a reader who wants the value there, one who only passes over it,
one who wants one of a few names there, one who has all the items of a list and wants its end, and
one who wants the key of a member. -/
structure Fault where
  reading : SyntaxError
  skipping : SyntaxError := reading
  naming : SyntaxError := reading
  closing : SyntaxError := .trailingCharacters
  asKey : SyntaxError := .keyMustBeAString
  deriving DecidableEq, Repr

end ServiceMetadata.Json
