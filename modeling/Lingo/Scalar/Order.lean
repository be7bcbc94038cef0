/-
Equality and order of scalars.

Numbers of different kinds are compared by their exact values, texts character by
character.  Complex numbers have no order, and neither have a number and a text.
-/

import Lingo.Scalar.Basic

namespace Lingo.Scalar

def equals : Scalar → Scalar → Bool
  | int a, int b => a == b
  | int a, float b => Numeral.compareInt a b == some .eq
  | float a, int b => Numeral.compareInt b a == some .eq
  | float a, float b => a == b
  | complex a, complex b => a.beq b
  | complex a, int b => a.im == 0.0 && Numeral.compareInt b a.re == some .eq
  | int a, complex b => b.im == 0.0 && Numeral.compareInt a b.re == some .eq
  | complex a, float b => a.im == 0.0 && a.re == b
  | float a, complex b => b.im == 0.0 && a == b.re
  | text a, text b => a == b
  | _, _ => false

def compareFloat (a b : Float) : Option Ordering :=
  if a < b then some .lt
  else if b < a then some .gt
  else if a == b then some .eq
  else none

def compareText (a b : String) : Ordering :=
  if a < b then .lt else if a = b then .eq else .gt

/-- How the first scalar stands to the second; a NaN stands in no relation to
any number. -/
def order : Scalar → Scalar → Except Crash (Option Ordering)
  | int a, int b => .ok (some (compare a b))
  | int a, float b => .ok (Numeral.compareInt a b)
  | float a, int b => .ok ((Numeral.compareInt b a).map Ordering.swap)
  | float a, float b => .ok (compareFloat a b)
  | text a, text b => .ok (some (compareText a b))
  | _, _ => .error .operandKinds

def lt (a b : Scalar) : Except Crash Bool := do
  return (← order a b) == some .lt

def gt (a b : Scalar) : Except Crash Bool := do
  return (← order a b) == some .gt

def le (a b : Scalar) : Except Crash Bool := do
  let relation ← order a b
  return relation == some .lt || relation == some .eq

def ge (a b : Scalar) : Except Crash Bool := do
  let relation ← order a b
  return relation == some .gt || relation == some .eq

def min (a b : Scalar) : Except Crash Scalar := do
  return if ← lt b a then b else a

def max (a b : Scalar) : Except Crash Scalar := do
  return if ← gt b a then b else a

end Lingo.Scalar
