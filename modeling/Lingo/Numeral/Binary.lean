/-
The exact meaning of binary floating-point numbers.

A finite number is a sign, a natural mantissa below `2 ^ 53` and a power of two.
Any ratio of natural numbers is rounded to the nearest such number, a tie going
to the even mantissa.
-/

namespace Lingo.Numeral

-- Powers are the built-in ones, whatever other instances are in scope.
attribute [local instance (high)] instPowNat

inductive Exact where
  | nan
  | infinite (negative : Bool)
  | finite (negative : Bool) (mantissa : Nat) (exponent : Int)
deriving DecidableEq, Repr, Inhabited

def leastExponent : Int := -1074

def decode (x : Float) : Exact :=
  let bits := x.toBits.toNat
  let negative := decide (bits / 2 ^ (63 : Nat) = 1)
  let field : Nat := bits / 2 ^ (52 : Nat) % 2 ^ (11 : Nat)
  let fraction : Nat := bits % 2 ^ (52 : Nat)
  if field = 2047 then
    if fraction = 0 then .infinite negative else .nan
  else if field = 0 then .finite negative fraction leastExponent
  else .finite negative (fraction + 2 ^ (52 : Nat)) ((field : Int) - 1075)

/-- Whether the sign field is set; this holds of a negative zero too. -/
def isNegative (x : Float) : Bool :=
  decide (x.toBits.toNat / 2 ^ (63 : Nat) = 1)

def ofMagnitude (negative : Bool) (magnitude : Nat) : Float :=
  Float.ofBits ((if negative then 2 ^ (63 : Nat) + magnitude else magnitude : Nat).toUInt64)

def infiniteMagnitude : Nat := 2047 * 2 ^ (52 : Nat)

def infinity (negative : Bool) : Float :=
  ofMagnitude negative infiniteMagnitude

def notANumber : Float :=
  ofMagnitude false (infiniteMagnitude + 2 ^ (51 : Nat))

def zero (negative : Bool) : Float :=
  ofMagnitude negative 0

def roundHalfEven (numerator denominator : Nat) : Nat :=
  let quotient := numerator / denominator
  let double := 2 * (numerator % denominator)
  if double < denominator then quotient
  else if denominator < double then quotient + 1
  else if quotient % 2 = 0 then quotient
  else quotient + 1

def unscale (numerator denominator : Nat) (exponent : Int) : Nat × Nat :=
  if 0 ≤ exponent then (numerator, denominator * 2 ^ exponent.toNat)
  else (numerator * 2 ^ (-exponent).toNat, denominator)

/-- The exponent for which the ratio, divided by that power of two, lies between
`2 ^ 52` and `2 ^ 53`, or the least exponent if that is larger. -/
def ratioExponent (numerator denominator : Nat) : Int :=
  let guess : Int := (numerator.log2 : Int) - denominator.log2 - 52
  let (scaled, unit) := unscale numerator denominator guess
  let exact := if scaled / unit < 2 ^ (52 : Nat) then guess - 1 else guess
  max exact leastExponent

def ofRatio (negative : Bool) (numerator denominator : Nat) : Float :=
  if numerator = 0 then zero negative
  else
    let exponent := ratioExponent numerator denominator
    let (scaled, unit) := unscale numerator denominator exponent
    let mantissa := roundHalfEven scaled unit
    let magnitude :=
      if mantissa < 2 ^ (52 : Nat) then mantissa
      else (exponent + 1075).toNat * 2 ^ (52 : Nat) + (mantissa - 2 ^ (52 : Nat))
    ofMagnitude negative (min magnitude infiniteMagnitude)

def ofInt? (n : Int) : Option Float :=
  let x := ofRatio (decide (n < 0)) n.natAbs 1
  if x.isInf then none else some x

def quotient? (n d : Int) : Option Float :=
  let x := ofRatio (decide (n < 0) != decide (d < 0)) n.natAbs d.natAbs
  if x.isInf then none else some x

def truncate (negative : Bool) (mantissa : Nat) (exponent : Int) : Int :=
  let (scaled, unit) := unscale mantissa 1 (-exponent)
  let magnitude : Int := scaled / unit
  if negative then -magnitude else magnitude

def compareInt (n : Int) (x : Float) : Option Ordering :=
  match decode x with
  | .nan => none
  | .infinite negative => some (if negative then .gt else .lt)
  | .finite negative mantissa exponent =>
      let (scaled, unit) := unscale mantissa 1 (-exponent)
      let signed : Int := if negative then -scaled else scaled
      some (compare (n * unit) signed)

def truncatedRemainder (x y : Float) : Float :=
  match decode x, decode y with
  | .finite negative left leftExponent, .finite _ right rightExponent =>
      if right = 0 then notANumber
      else
        let exponent := min leftExponent rightExponent
        let dividend := left * 2 ^ (leftExponent - exponent).toNat
        let divisor := right * 2 ^ (rightExponent - exponent).toNat
        let (numerator, denominator) := unscale (dividend % divisor) 1 (-exponent)
        ofRatio negative numerator denominator
  | .finite .., .infinite _ => x
  | _, _ => notANumber

def powerOfTwo (exponent : Int) : Float :=
  ofRatio false (2 ^ exponent.toNat) (2 ^ (-exponent).toNat)

def correctedRoot (long short : Float) : Float :=
  let length := (long * long + short * short).sqrt
  if length ≤ 2.0 * short then
    let excess := length - short
    let first := long * (2.0 * excess - long)
    let second := (excess - 2.0 * (long - short)) * excess
    length - (first + second) / (2.0 * length)
  else
    let excess := length - long
    let first := 2.0 * excess * (long - 2.0 * short)
    let second := (4.0 * excess - short) * short + excess * excess
    length - (first + second) / (2.0 * length)

/-- The length of the hypotenuse over a longer and a shorter leg, both finite.  A leg too
short to matter is added, and legs whose squares leave the range are scaled. -/
def hypotenuseOver (long short : Float) : Float :=
  let scale := powerOfTwo 600
  if short ≤ long * powerOfTwo (-54) then long + short
  else if powerOfTwo 511 < long then correctedRoot (long / scale) (short / scale) * scale
  else if short < powerOfTwo (-459) then correctedRoot (long * scale) (short * scale) / scale
  else correctedRoot long short

def hypotenuse (x y : Float) : Float :=
  if x.isInf || y.isInf then infinity false
  else if x.isNaN || y.isNaN then notANumber
  else if x.abs < y.abs then hypotenuseOver y.abs x.abs
  else hypotenuseOver x.abs y.abs

end Lingo.Numeral
