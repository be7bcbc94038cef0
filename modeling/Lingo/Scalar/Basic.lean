/-
Scalars: what a number object or a text object holds.

A number object may also hold a complex number or a text.
-/

import Lingo.Scalar.Complex
import Lingo.Numeral.Reading

namespace Lingo

attribute [local instance (high)] instPowNat

inductive Scalar where
  | int (n : Int)
  | float (x : Float)
  | complex (z : Complex)
  | text (s : String)
deriving Repr, Inhabited

namespace Scalar

def floatOfInt (n : Int) : Except Crash Float :=
  match Numeral.ofInt? n with
  | some x => .ok x
  | none => .error .tooLarge

def isTruthy : Scalar → Bool
  | int n => n != 0
  | float x => x != 0.0
  | complex z => !z.isZero
  | text s => s != ""

def isZero : Scalar → Bool
  | int n => n == 0
  | float x => x == 0.0
  | complex z => z.isZero
  | text _ => false

def truncate (x : Float) : Except Crash Int :=
  match Numeral.decode x with
  | .nan => .error .unreadable
  | .infinite _ => .error .tooLarge
  | .finite negative mantissa exponent => .ok (Numeral.truncate negative mantissa exponent)

def toInt : Scalar → Except Crash Int
  | int n => .ok n
  | float x => truncate x
  | complex _ => .error .operandKinds
  | text s =>
      match Numeral.readInt? s with
      | some n => .ok n
      | none => .error .unreadable

def toFloat : Scalar → Except Crash Float
  | int n => floatOfInt n
  | float x => .ok x
  | complex _ => .error .operandKinds
  | text s =>
      match Numeral.readFloat? s with
      | some x => .ok x
      | none => .error .unreadable

def intText (n : Int) : Except Crash String :=
  if 10 ^ Numeral.digitLimit ≤ n.natAbs then .error .unreadable
  else .ok (toString n)

def display : Scalar → Except Crash String
  | int n => intText n
  | float x => .ok (Numeral.Layout.number.write x)
  | complex z => .ok z.display
  | text s => .ok s

end Scalar

end Lingo
