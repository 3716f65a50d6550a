import PhpInspect.Number.Binary64

/-! # The shortest decimal of a number

The fewest digits that read back as the number, and of those the nearest, written with a point and without an
exponent.
-/

namespace PhpInspect.Binary64

structure Fraction where
  num : Nat
  den : Nat
deriving Repr, DecidableEq

def decimalFraction (digits : Nat) (scale : Int) : Fraction :=
  if scale < 0 then ⟨digits, Nat.pow 10 (-scale).toNat⟩ else ⟨digits * Nat.pow 10 scale.toNat, 1⟩

namespace Fraction

def lt (a b : Fraction) : Bool := a.num * b.den < b.num * a.den

def le (a b : Fraction) : Bool := a.num * b.den ≤ b.num * a.den

def distance (a b : Fraction) : Fraction :=
  let x := a.num * b.den
  let y := b.num * a.den
  ⟨(x - y) + (y - x), a.den * b.den⟩

/-- How many digits stand before the point: the least `p` with the fraction below `10 ^ p`. -/
def places (v : Fraction) : Int :=
  let guess := Int.ofNat (Nat.toDigits 10 v.num).length - Int.ofNat (Nat.toDigits 10 v.den).length
  if v.lt (decimalFraction 1 guess) then guess else guess + 1

def units (v : Fraction) (scale : Int) : Nat :=
  if scale < 0 then v.num * Nat.pow 10 (-scale).toNat / v.den else v.num / (v.den * Nat.pow 10 scale.toNat)

end Fraction

def quarters (mantissa : Nat) (exponent : Int) : Fraction :=
  if exponent - 2 < 0 then ⟨mantissa, 1 <<< (2 - exponent).toNat⟩ else ⟨mantissa <<< (exponent - 2).toNat, 1⟩

/-- Whether a decimal reads back as `mantissa * 2 ^ exponent`: whether it lies between the midpoints to the
neighbours, which themselves count for an even mantissa. -/
def readsBack (mantissa : Nat) (exponent : Int) (v : Fraction) : Bool :=
  let below := if mantissa == 1 <<< 52 && leastExponent < exponent then 4 * mantissa - 1 else 4 * mantissa - 2
  let low := quarters below exponent
  let high := quarters (4 * mantissa + 2) exponent
  if mantissa % 2 == 0 then low.le v && v.le high else low.lt v && v.lt high

/-- The nearer of the two neighbours on the grid `10 ^ scale` that read back, the upper one if both are as near. -/
def onGrid (mantissa : Nat) (exponent : Int) (scale : Int) : Option Nat :=
  let v := quarters (4 * mantissa) exponent
  let down := v.units scale
  let reads n := readsBack mantissa exponent (decimalFraction n scale)
  let distance n := (decimalFraction n scale).distance v
  match reads down, reads (down + 1) with
  | true, true => some (if (distance down).lt (distance (down + 1)) then down else down + 1)
  | true, false => some down
  | false, true => some (down + 1)
  | false, false => none

/-- Tries grids from coarse to fine. Seventeen digits always read back. A neighbour with one digit more than its
grid gives is the next power of ten. -/
def shortestFrom (mantissa : Nat) (exponent places : Int) : Nat → Nat → Nat × Int
  | 0, _ => (0, 0)
  | tries + 1, count =>
    let scale := places - count
    match onGrid mantissa exponent scale with
    | some n => if n == Nat.pow 10 count then (1, places) else (n, scale)
    | none => shortestFrom mantissa exponent places tries (count + 1)

/-- The shortest decimal of a positive number, as digits and a power of ten. -/
def shortest (mantissa : Nat) (exponent : Int) : Nat × Int :=
  shortestFrom mantissa exponent (quarters (4 * mantissa) exponent).places 17 1

/-- Digits times a power of ten without an exponent, with a point only if something follows it. -/
def positional (digits : Nat) (scale : Int) : String :=
  let ds := Nat.toDigits 10 digits
  if 0 ≤ scale then String.ofList (ds ++ List.replicate scale.toNat '0')
  else
    let after := (-scale).toNat
    let padded := List.replicate (after + 1 - ds.length) '0' ++ ds
    let whole := padded.length - after
    String.ofList (padded.take whole ++ '.' :: padded.drop whole)

/-- The shortest text that reads back, always with a point. `nan` is the text for what is no number. -/
def text (nan : String) : Binary64 → String
  | .nan => nan
  | .infinite negative => if negative then "-inf" else "inf"
  | .finite negative mantissa exponent =>
    let sign := if negative then "-" else ""
    if mantissa == 0 then sign ++ "0.0"
    else
      let (digits, scale) := shortest mantissa exponent
      sign ++ positional digits scale ++ (if 0 ≤ scale then ".0" else "")

end PhpInspect.Binary64
