/-
The fewest decimal digits that read back.

A positive floating-point number is nearest to every real in an interval around
it.  Among the decimal grids `10 ^ p`, from coarse to fine, the first that has a
point in the interval gives the digits; of two such points the nearer is taken.
-/

import Lingo.Numeral.Binary

namespace Lingo.Numeral

attribute [local instance (high)] instPowNat

structure Decimal where
  digits : Nat
  power : Int
deriving DecidableEq, Repr, Inhabited

/-- The two integer weights that compare `d * 10 ^ power` with `x * 2 ^ exponent`:
`d * fst` stands to `x * snd` as the first number stands to the second. -/
def weights (power exponent : Int) : Nat × Nat :=
  (10 ^ power.toNat * 2 ^ (-exponent).toNat, 2 ^ exponent.toNat * 10 ^ (-power).toNat)

def leadingPower (mantissa : Nat) (exponent : Int) : Int :=
  let guess := (((mantissa.log2 : Int) + exponent) * 30103).fdiv 100000
  let reaches (power : Int) : Bool :=
    let (ten, two) := weights power exponent
    decide (ten ≤ mantissa * two)
  if reaches (guess + 1) then guess + 1
  else if reaches guess then guess
  else guess - 1

/-- The reals that round to `mantissa * 2 ^ exponent`, in quarters of the unit in
the last place.  The gap below a power of two is half as wide. -/
def roundingInterval (mantissa : Nat) (exponent : Int) : Nat × Nat :=
  let below := if mantissa = 2 ^ (52 : Nat) ∧ leastExponent < exponent then 1 else 2
  (4 * mantissa - below, 4 * mantissa + 2)

/-- The point of the grid `10 ^ power` that rounds to the number, if there is one.
The ends of the interval belong to it when the mantissa is even. -/
def gridPoint? (mantissa : Nat) (exponent power : Int) : Option Nat :=
  let (ten, two) := weights power (exponent - 2)
  let (low, high) := roundingInterval mantissa exponent
  let value := 4 * mantissa * two
  let rounds (d : Nat) : Bool :=
    if mantissa % 2 = 0 then decide (low * two ≤ d * ten ∧ d * ten ≤ high * two)
    else decide (low * two < d * ten ∧ d * ten < high * two)
  let floor := value / ten
  match rounds floor, rounds (floor + 1) with
  | true, true =>
      let below := value - floor * ten
      let above := (floor + 1) * ten - value
      some
        (if below < above then floor
         else if above < below then floor + 1
         else if floor % 2 = 0 then floor
         else floor + 1)
  | true, false => some floor
  | false, true => some (floor + 1)
  | false, false => none

/-- Searches the grids with `tried + 1`, `tried + 2`, … digits.  Seventeen digits
always suffice. -/
def shortestFrom (mantissa : Nat) (exponent leading : Int) : Nat → Nat → Decimal
  | 0, tried => ⟨0, leading - tried⟩
  | fuel + 1, tried =>
      let power := leading - tried
      match gridPoint? mantissa exponent power with
      | some digits => ⟨digits, power⟩
      | none => shortestFrom mantissa exponent leading fuel (tried + 1)

def shortest (mantissa : Nat) (exponent : Int) : Decimal :=
  shortestFrom mantissa exponent (leadingPower mantissa exponent) 18 0

end Lingo.Numeral
