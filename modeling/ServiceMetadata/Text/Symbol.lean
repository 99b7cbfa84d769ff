/-! # Bytes read as characters

A file is bytes, and a text is characters. Bytes that spell no character are kept as strays, so that
a reader can say where it met one. -/
namespace ServiceMetadata.Text

/-- A character, or a byte that belongs to none. -/
abbrev Symbol := Option Char

def symbolsOfString (s : String) : List Symbol := s.toList.map some

def symbolsFrom (bytes : ByteArray) (i : Nat) : List Symbol :=
  if i < bytes.size then
    match bytes.utf8DecodeChar? i with
    | some c => some c :: symbolsFrom bytes (i + c.utf8Size)
    | none => none :: symbolsFrom bytes (i + 1)
  else []
termination_by bytes.size - i
decreasing_by
  · have := Char.utf8Size_pos c
    omega
  · omega

/-- Only bytes that are no text as a whole are looked at one by one. -/
def symbols (bytes : ByteArray) : List Symbol :=
  match String.fromUTF8? bytes with
  | some s => symbolsOfString s
  | none => symbolsFrom bytes 0

def symbolSize : Symbol → Nat
  | some c => c.utf8Size
  | none => 1

def leadByte (c : Char) : Char :=
  match String.utf8EncodeChar c with
  | b :: _ => Char.ofNat b.toNat
  | [] => c

def sizeOfText (s : List Char) : Nat := s.foldl (fun size c => size + c.utf8Size) 0

end ServiceMetadata.Text
