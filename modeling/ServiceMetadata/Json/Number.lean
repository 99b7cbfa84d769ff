import ServiceMetadata.Decimal.Shortest

/-! # JSON numbers

A number as it is spelled, and what it amounts to: a whole number of 64 bits if it is spelled as one
and fits, else a binary floating-point number. The significand of the latter holds as many of the
leading digits as 64 bits do; the digits after those count as zeros. -/
namespace ServiceMetadata.Json

structure Exponent where
  negative : Bool
  digits : List Char
  deriving DecidableEq, Repr

structure Number where
  negative : Bool
  whole : List Char
  fraction : List Char
  exponent : Option Exponent
  deriving DecidableEq, Repr

inductive Quantity where
  | integer (n : Int)
  | float (f : Float)

def digitValue (c : Char) : Nat := c.toNat - '0'.toNat

/-- Takes digits into a significand for as long as it stays below `2 ^ 64`, and gives the number of
digits left over. -/
def absorb (significand : Nat) : List Char → Nat × Nat
  | [] => (significand, 0)
  | d :: rest =>
    let grown := significand * 10 + digitValue d
    if grown ≤ 0xFFFFFFFFFFFFFFFF then absorb grown rest else (significand, rest.length + 1)

def scaleFloat (f : Float) (exponent : Int) : Option Float :=
  if exponent.natAbs ≤ 308 then
    let power := Float.ofScientific 1 false exponent.natAbs
    if 0 ≤ exponent then
      if (f * power).isInf then none else some (f * power)
    else some (f / power)
  else if f == 0 then some f
  else if 0 ≤ exponent then none
  else scaleFloat (f / Float.ofScientific 1 false 308) (exponent + 308)
termination_by exponent.natAbs
decreasing_by omega

def withSign (negative : Bool) (f : Float) : Float := if negative then -f else f

/-- The greatest exponent that is computed with; a number with a greater one is zero or too large.
-/
def greatestExponent : Nat := 0x7FFFFFFF

def Number.quantity (n : Number) : Option Quantity :=
  let (leading, dropped) := absorb 0 n.whole
  if dropped = 0 && n.fraction.isEmpty && n.exponent.isNone then
    if !n.negative then some (.integer leading)
    else if 0 < leading && leading ≤ 0x8000000000000000 then some (.integer (-leading))
    else some (.float (-leading.toUInt64.toFloat))
  else
    let (significand, unread) := absorb leading n.fraction
    let start : Int := dropped - (n.fraction.length - unread : Nat)
    let scaled (exponent : Int) : Option Quantity :=
      (scaleFloat significand.toUInt64.toFloat exponent).map fun f => .float (withSign n.negative f)
    match n.exponent with
    | none => scaled start
    | some e =>
      let written := e.digits.foldl (fun sum d => sum * 10 + digitValue d) 0
      if written ≤ greatestExponent then
        let shifted : Int := if e.negative then start - written else start + written
        scaled (max (-0x80000000) (min greatestExponent shifted))
      else if significand ≠ 0 && !e.negative then none
      else some (.float (withSign n.negative 0))

def floatLayout : Decimal.Layout := { leastPlain := -5, greatestPlain := 15 }

def Exponent.spelling (e : Exponent) : List Char :=
  'e' :: (if e.negative then ['-'] else []) ++ e.digits

def Number.spelling (n : Number) : List Char :=
  (if n.negative then ['-'] else []) ++ n.whole ++
    (if n.fraction.isEmpty then [] else '.' :: n.fraction) ++
    (match n.exponent with | some e => e.spelling | none => [])

end ServiceMetadata.Json
