/-
Complex numbers with floating-point parts.

Small whole powers are products; other powers go through the polar form.
-/

import Lingo.Crash
import Lingo.Numeral.Layout

namespace Lingo

structure Complex where
  re : Float
  im : Float
deriving Repr, Inhabited

namespace Complex

def ofReal (x : Float) : Complex :=
  { re := x, im := Numeral.zero false }

def one : Complex := ofReal 1.0

def add (a b : Complex) : Complex :=
  { re := a.re + b.re, im := a.im + b.im }

def sub (a b : Complex) : Complex :=
  { re := a.re - b.re, im := a.im - b.im }

def mul (a b : Complex) : Complex :=
  { re := a.re * b.re - a.im * b.im, im := a.re * b.im + a.im * b.re }

def beq (a b : Complex) : Bool :=
  a.re == b.re && a.im == b.im

def isZero (a : Complex) : Bool :=
  a.re == 0.0 && a.im == 0.0

def div (a b : Complex) : Except Crash Complex :=
  let re := b.re.abs
  let im := b.im.abs
  if im ≤ re then
    if re == 0.0 then .error .undefinedResult
    else
      let ratio := b.im / b.re
      let unit := b.re + b.im * ratio
      .ok { re := (a.re + a.im * ratio) / unit, im := (a.im - a.re * ratio) / unit }
  else if re ≤ im then
    let ratio := b.re / b.im
    let unit := b.re * ratio + b.im
    .ok { re := (a.re * ratio + a.im) / unit, im := (a.im * ratio - a.re) / unit }
  else .ok { re := Numeral.notANumber, im := Numeral.notANumber }

/-- The squares at the set bits of the exponent are collected in `product`. -/
def powNat (product square : Complex) : Nat → Nat → Complex
  | 0, _ => product
  | _, 0 => product
  | fuel + 1, exponent + 1 =>
      let collected := if (exponent + 1) % 2 = 1 then product.mul square else product
      powNat collected (square.mul square) fuel ((exponent + 1) / 2)

def checked (a : Complex) : Except Crash Complex :=
  if a.re.isInf || a.im.isInf then .error .tooLarge else .ok a

def abs (a : Complex) : Except Crash Float :=
  let length := Numeral.hypotenuse a.re a.im
  if length.isInf && !a.re.isInf && !a.im.isInf then .error .tooLarge else .ok length

def ofPolar (length angle : Float) : Except Crash Complex :=
  if angle.isInf then .error .undefinedResult
  else checked { re := length * Float.cos angle, im := length * Float.sin angle }

def powPolar (a b : Complex) : Except Crash Complex :=
  if b.isZero then .ok one
  else if a.isZero then
    if b.im != 0.0 || b.re < 0.0 then .error .undefinedResult else .ok (ofReal 0.0)
  else
    let length := Numeral.hypotenuse a.re a.im
    let angle := Float.atan2 a.im a.re
    let scale := Float.pow length b.re
    let turn := angle * b.re
    let (scale, turn) :=
      if b.im != 0.0 then
        (scale / Float.exp (angle * b.im), turn + b.im * Float.log length)
      else (scale, turn)
    ofPolar scale turn

def productLimit : Float := 100.0

def pow (a b : Complex) : Except Crash Complex :=
  if b.im == 0.0 && b.re == b.re.floor && b.re.abs ≤ productLimit then
    let exponent := b.re.abs.toUInt64.toNat
    let product := powNat one a 8 exponent
    if 0.0 < b.re then checked product
    else do checked (← one.div product)
  else powPolar a b

/-- A complex number is written with both parts in parentheses, or as its imaginary
part alone when the real part is a positive zero. -/
def display (a : Complex) : String :=
  if a.re == 0.0 && !Numeral.isNegative a.re then
    Numeral.Layout.part.write a.im ++ "j"
  else
    "(" ++ Numeral.Layout.part.write a.re ++ Numeral.Layout.part.writeSigned a.im ++ "j)"

end Complex

end Lingo
