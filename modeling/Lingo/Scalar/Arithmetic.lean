/-
Arithmetic on scalars.

A floating-point operand turns the other into one, and a complex operand likewise.  Division of
integers gives the nearest floating-point number; floor division and remainder round toward
minus infinity.
-/

import Lingo.Scalar.Template

namespace Lingo.Scalar

attribute [local instance (high)] instPowNat

inductive Operands where
  | ints (a b : Int)
  | floats (a b : Float)
  | complexes (a b : Complex)

def complexOfInt (n : Int) : Except Crash Complex := do
  return Complex.ofReal (← floatOfInt n)

def unify : Scalar → Scalar → Except Crash Operands
  | int a, int b => .ok (.ints a b)
  | int a, float b => do return .floats (← floatOfInt a) b
  | float a, int b => do return .floats a (← floatOfInt b)
  | float a, float b => .ok (.floats a b)
  | complex a, complex b => .ok (.complexes a b)
  | complex a, float b => .ok (.complexes a (Complex.ofReal b))
  | float a, complex b => .ok (.complexes (Complex.ofReal a) b)
  | complex a, int b => do return .complexes a (← complexOfInt b)
  | int a, complex b => do return .complexes (← complexOfInt a) b
  | _, _ => .error .operandKinds

def add : Scalar → Scalar → Except Crash Scalar
  | text a, text b => .ok (text (a ++ b))
  | a, b => do
      match ← unify a b with
      | .ints a b => return int (a + b)
      | .floats a b => return float (a + b)
      | .complexes a b => return complex (a.add b)

def sub (a b : Scalar) : Except Crash Scalar := do
  match ← unify a b with
  | .ints a b => return int (a - b)
  | .floats a b => return float (a - b)
  | .complexes a b => return complex (a.sub b)

def countLimit : Int := 2 ^ (63 : Nat)

def repeated (s : String) (count : Int) : Except Crash String :=
  if countLimit ≤ count ∨ count < -countLimit then .error .tooLarge
  else if s.isEmpty then .ok ""
  else .ok (String.join (List.replicate count.toNat s))

def mul : Scalar → Scalar → Except Crash Scalar
  | text a, int b => do return text (← repeated a b)
  | int a, text b => do return text (← repeated b a)
  | a, b => do
      match ← unify a b with
      | .ints a b => return int (a * b)
      | .floats a b => return float (a * b)
      | .complexes a b => return complex (a.mul b)

def div (a b : Scalar) : Except Crash Scalar := do
  match ← unify a b with
  | .ints a b =>
      if b = 0 then throw .undefinedResult
      match Numeral.quotient? a b with
      | some x => return float x
      | none => throw .tooLarge
  | .floats a b => return float (a / b)
  | .complexes a b => return complex (← a.div b)

def floatMod (a b : Float) : Float :=
  let remainder := Numeral.truncatedRemainder a b
  if remainder == 0.0 then Numeral.zero (Numeral.isNegative b)
  else if decide (b < 0.0) != decide (remainder < 0.0) then remainder + b
  else remainder

/-- The quotient rounded down: what is left after the remainder is taken off is a
whole multiple of the divisor up to rounding, and is snapped to it. -/
def floatFloorDiv (a b : Float) : Float :=
  let remainder := Numeral.truncatedRemainder a b
  let rough := (a - remainder) / b
  let quotient :=
    if remainder != 0.0 && decide (b < 0.0) != decide (remainder < 0.0) then rough - 1.0 else rough
  if quotient != 0.0 then
    let floor := quotient.floor
    if 0.5 < quotient - floor then floor + 1.0 else floor
  else Numeral.zero (Numeral.isNegative (a / b))

def floorDiv (a b : Scalar) : Except Crash Scalar := do
  match ← unify a b with
  | .ints a b => return int (a.fdiv b)
  | .floats a b => return float (floatFloorDiv a b)
  | .complexes _ _ => throw .operandKinds

/-- A text on the left is a template that the right operand fills. -/
def mod : Scalar → Scalar → Except Crash Scalar
  | text template, value => do return text (← Template.fill template value)
  | a, b => do
      match ← unify a b with
      | .ints a b => return int (a.fmod b)
      | .floats a b => return float (floatMod a b)
      | .complexes _ _ => throw .operandKinds

def isWhole (x : Float) : Bool :=
  match Numeral.decode x with
  | .finite _ mantissa exponent => mantissa % 2 ^ (-exponent).toNat == 0
  | .infinite _ => true
  | .nan => false

def isOdd (x : Float) : Bool :=
  match Numeral.decode x with
  | .finite _ mantissa exponent =>
      if 0 < exponent then false
      else
        let unit := 2 ^ (-exponent).toNat
        mantissa % unit == 0 && mantissa / unit % 2 == 1
  | _ => false

/-- The power of floating-point numbers.  A negative base with a fractional
exponent gives a complex number. -/
def floatPow (a b : Float) : Except Crash Scalar :=
  if b == 0.0 then .ok (float 1.0)
  else if a.isNaN then .ok (float a)
  else if b.isNaN then .ok (float (if a == 1.0 then 1.0 else b))
  else if b.isInf then
    let size := a.abs
    if size == 1.0 then .ok (float 1.0)
    else if decide (0.0 < b) == decide (1.0 < size) then .ok (float b.abs)
    else .ok (float 0.0)
  else if a.isInf then
    if 0.0 < b then .ok (float (if isOdd b then a else a.abs))
    else .ok (float (Numeral.zero (isOdd b && Numeral.isNegative a)))
  else if a == 0.0 then
    if b < 0.0 then .error .undefinedResult
    else .ok (float (if isOdd b then a else 0.0))
  else if a < 0.0 && !isWhole b then do
    return complex (← (Complex.ofReal a).pow (Complex.ofReal b))
  else
    let negates := a < 0.0 && isOdd b
    let size := a.abs
    if size == 1.0 then .ok (float (if negates then -1.0 else 1.0))
    else
      let power := size.pow b
      if power.isInf then .error .tooLarge
      else .ok (float (if negates then -power else power))

/-- The power of an integer.  For bases of size at most one the exponent may be of any
size, so their powers are found without multiplication. -/
def intPow (base : Int) (exponent : Nat) : Int :=
  if base = 1 then 1
  else if base = 0 then (if exponent = 0 then 1 else 0)
  else if base = -1 then (if exponent % 2 = 0 then 1 else -1)
  else base ^ exponent

theorem neg_one_pow_eq (exponent : Nat) :
    (-1 : Int) ^ exponent = if exponent % 2 = 0 then 1 else -1 := by
  induction exponent with
  | zero => rfl
  | succ exponent ih =>
      rw [Int.pow_succ, ih]
      by_cases even : exponent % 2 = 0
      · have odd : (exponent + 1) % 2 ≠ 0 := by omega
        simp [even, odd]
      · have next : (exponent + 1) % 2 = 0 := by omega
        simp [even, next]

theorem intPow_eq_pow (base : Int) (exponent : Nat) : intPow base exponent = base ^ exponent := by
  unfold intPow
  split
  next one => rw [one, Int.one_pow]
  next =>
    split
    next zero =>
      rw [zero]
      cases exponent with
      | zero => rfl
      | succ exponent => rw [if_neg (Nat.succ_ne_zero _), Int.pow_succ, Int.mul_zero]
    next =>
      split
      next negative => rw [negative, neg_one_pow_eq]
      next => rfl

def pow (a b : Scalar) : Except Crash Scalar := do
  match ← unify a b with
  | .ints a b =>
      if 0 ≤ b then return int (intPow a b.toNat)
      else floatPow (← floatOfInt a) (← floatOfInt b)
  | .floats a b => floatPow a b
  | .complexes a b => return complex (← a.pow b)

def both (a b : Scalar) : Except Crash Scalar := do
  return int (← (if a.isTruthy then b else a).toInt)

def either (a b : Scalar) : Except Crash Scalar := do
  return int (← (if a.isTruthy then a else b).toInt)

def abs : Scalar → Except Crash Scalar
  | int n => .ok (int n.natAbs)
  | float x => .ok (float x.abs)
  | complex z => do return float (← z.abs)
  | text _ => .error .operandKinds

def octal : Scalar → Except Crash String
  | int n =>
      let digits := String.ofList (Nat.toDigits 8 n.natAbs)
      .ok (if n < 0 then "-0o" ++ digits else "0o" ++ digits)
  | _ => .error .operandKinds

def ofBool (b : Bool) : Scalar :=
  int (if b then 1 else 0)

end Lingo.Scalar
