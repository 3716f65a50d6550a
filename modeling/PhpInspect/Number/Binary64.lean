/-! # Binary floating-point numbers

Numbers of double precision. A finite one is a whole number below `2 ^ 53` times a power of two that is not less
than `2 ^ (-1074)`.
-/

namespace PhpInspect

inductive Binary64 where
  | nan
  | infinite (negative : Bool)
  | finite (negative : Bool) (mantissa : Nat) (exponent : Int)
deriving Repr, DecidableEq, Inhabited

namespace Binary64

def leastExponent : Int := -1074

/-- Half goes to the even neighbour. -/
def roundDiv (num den : Nat) : Nat :=
  let q := num / den
  let r := num % den
  if den < 2 * r || (2 * r == den && q % 2 == 1) then q + 1 else q

/-- `num / den / 2 ^ exponent` as a fraction. -/
def scaled (num den : Nat) (exponent : Int) : Nat × Nat :=
  if exponent < 0 then (num <<< (-exponent).toNat, den) else (num, den <<< exponent.toNat)

/-- The exponent with which a positive fraction has 53 binary digits, or the least one. -/
def exponentOf (num den : Nat) : Int :=
  let guess : Int := max (Int.ofNat num.log2 - Int.ofNat den.log2 - 52) leastExponent
  let (n, d) := scaled num den guess
  if n / d < 1 <<< 52 && leastExponent < guess then guess - 1 else guess

def ofFraction (negative : Bool) (num den : Nat) : Binary64 :=
  let exponent := exponentOf num den
  let (n, d) := scaled num den exponent
  let mantissa := roundDiv n d
  let (mantissa, exponent) := if mantissa == 1 <<< 53 then (1 <<< 52, exponent + 1) else (mantissa, exponent)
  if 971 < exponent then infinite negative else finite negative mantissa exponent

/-- The number nearest to `digits * 10 ^ scale`. Numbers of more than 310 places are infinite, those that begin
after 330 zeros are zero. -/
def ofDecimal (negative : Bool) (digits : Nat) (scale : Int) : Binary64 :=
  let places := Int.ofNat (Nat.toDigits 10 digits).length + scale
  if digits == 0 || places < -330 then finite negative 0 leastExponent
  else if 310 < places then infinite negative
  else if scale < 0 then ofFraction negative digits (Nat.pow 10 (-scale).toNat)
  else ofFraction negative (digits * Nat.pow 10 scale.toNat) 1

end Binary64

end PhpInspect
