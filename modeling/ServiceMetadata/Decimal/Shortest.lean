/-! # Shortest decimals

The decimal with the fewest digits that reads back as a given binary floating-point number. A number
`m · 2 ^ q` is read from every real closer to it than to its neighbours; the coarsest grid of
multiples of a power of ten that meets those reals gives the digits. -/
namespace ServiceMetadata.Decimal

/-- The number `significand · 2 ^ exponent`, and whether the next smaller one is half as far away as
the next larger one. -/
structure Binary where
  negative : Bool
  significand : Nat
  exponent : Int
  nearBelow : Bool

def Binary.ofFloat (f : Float) : Binary :=
  let bits := f.toBits.toNat
  let fraction := bits &&& 0xFFFFFFFFFFFFF
  let biased := bits >>> 52 &&& 0x7FF
  { negative := bits >>> 63 = 1
    significand := if biased = 0 then fraction else fraction ||| 0x10000000000000
    exponent := (max biased 1 : Nat) - 1075
    nearBelow := fraction = 0 && 1 < biased }

structure Scaled where
  digits : Nat
  exponent : Int

/-- A multiple of `10 ^ k` that reads back as `b`: of two the nearer one, and of two as near the
even one. In quarters of the last binary place, `c · 10 ^ k` stands to a count `x` as `c · scale`
stands to `x · unit`. -/
def onGrid (b : Binary) (k : Int) : Option Nat :=
  let unit := Nat.pow 10 (-k).toNat <<< (b.exponent - 2).toNat
  let scale := Nat.pow 10 k.toNat <<< (2 - b.exponent).toNat
  let value := 4 * b.significand * unit
  let low := (4 * b.significand - if b.nearBelow then 1 else 2) * unit
  let high := (4 * b.significand + 2) * unit
  let readsBack (c : Nat) : Bool :=
    if b.significand % 2 = 0 then low ≤ c * scale && c * scale ≤ high
    else low < c * scale && c * scale < high
  let below := value / scale
  match readsBack below, readsBack (below + 1) with
  | true, true =>
    let (down, up) := (value - below * scale, (below + 1) * scale - value)
    if down < up || (down = up && below % 2 = 0) then some below else some (below + 1)
  | true, false => some below
  | false, true => some (below + 1)
  | false, false => none

def shortest (b : Binary) : Option Scaled :=
  (List.range 660).findSome? fun (i : Nat) =>
    let k : Int := 309 - i
    (onGrid b k).map fun c => { digits := c, exponent := k }

/-- The least and the greatest power of ten of the first digit for which a decimal is written with a
plain point; beyond them it is written with an exponent. -/
structure Layout where
  leastPlain : Int
  greatestPlain : Int

def writeExponent (e : Int) : List Char :=
  'e' :: (if e < 0 then '-' else '+') :: Nat.toDigits 10 e.natAbs

def write (layout : Layout) (d : Scaled) : List Char :=
  let ds := Nat.toDigits 10 d.digits
  let first : Int := d.exponent + ds.length - 1
  if layout.leastPlain ≤ first && first ≤ layout.greatestPlain then
    if first < 0 then '0' :: '.' :: List.replicate (-first - 1).toNat '0' ++ ds
    else if 0 ≤ d.exponent then ds ++ List.replicate d.exponent.toNat '0' ++ ['.', '0']
    else ds.take (first.toNat + 1) ++ '.' :: ds.drop (first.toNat + 1)
  else
    match ds with
    | [] => []
    | [c] => c :: writeExponent first
    | c :: rest => c :: '.' :: rest ++ writeExponent first

def writeFloat (layout : Layout) (f : Float) : String :=
  let b := Binary.ofFloat f
  let body := if b.significand = 0 then ['0', '.', '0'] else
    match shortest b with
    | some d => write layout d
    | none => []
  String.ofList (if b.negative then '-' :: body else body)

end ServiceMetadata.Decimal
