/-
Numbers written with a chosen number of digits.

The exact value is rounded to the last digit shown, a tie going to the even digit.
-/

import Lingo.Numeral.Layout

namespace Lingo.Numeral

attribute [local instance (high)] instPowNat

def roundTo (mantissa : Nat) (exponent power : Int) : Nat :=
  let (ten, two) := weights power exponent
  roundHalfEven (mantissa * two) ten

def withPoint (keeps : Bool) (places : Nat) (digits : List Char) : List Char :=
  let padded := List.replicate (places + 1 - digits.length) '0' ++ digits
  let whole := padded.take (padded.length - places)
  if places = 0 then if keeps then whole ++ ['.'] else whole
  else whole ++ '.' :: padded.drop (padded.length - places)

def fixed (keeps : Bool) (places mantissa : Nat) (exponent : Int) : List Char :=
  withPoint keeps places (digitsOf (roundTo mantissa exponent (-(places : Int))))

/-- The leading digits of a number, `count` of them, and the exponent of the first.
Rounding may carry into a new leading digit. -/
def leadingDigits (count mantissa : Nat) (exponent : Int) : List Char × Int :=
  if mantissa = 0 then (List.replicate count '0', 0)
  else
    let leading := leadingPower mantissa exponent
    let rounded := roundTo mantissa exponent (leading - count + 1)
    if rounded < 10 ^ count then (digitsOf rounded, leading)
    else (digitsOf (rounded / 10), leading + 1)

def withExponent (keeps : Bool) (digits : List Char) (exponent : Int) : List Char :=
  withPoint keeps (digits.length - 1) digits ++ exponentText exponent

def scientific (keeps : Bool) (places mantissa : Nat) (exponent : Int) : List Char :=
  let (digits, leading) := leadingDigits (places + 1) mantissa exponent
  withExponent keeps digits leading

def general (keeps : Bool) (count mantissa : Nat) (exponent : Int) : List Char :=
  let count := max count 1
  let (digits, leading) := leadingDigits count mantissa exponent
  let digits := if keeps then digits else
    match stripZeros digits with
    | [] => ['0']
    | kept => kept
  if -4 ≤ leading ∧ leading < count then
    if leading < 0 then withPoint keeps (digits.length + (-leading).toNat - 1) digits
    else
      let whole := leading.toNat + 1
      let padded := digits ++ List.replicate (whole - digits.length) '0'
      withPoint keeps (padded.length - whole) padded
  else withExponent keeps digits leading

end Lingo.Numeral
