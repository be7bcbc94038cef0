/-
The written form of floating-point numbers, with the fewest digits that read back.
-/

import Lingo.Numeral.Shortest

namespace Lingo.Numeral

structure Layout where
  least : Int
  limit : Int
  keepsPoint : Bool
deriving DecidableEq, Repr

/-- Numbers from `0.0001` up to, but not including, `10 ^ 16` are written with a
plain point, and a whole one ends in `.0`. -/
def Layout.number : Layout :=
  { least := -4, limit := 16, keepsPoint := true }

def Layout.part : Layout :=
  { Layout.number with keepsPoint := false }

def digitsOf (n : Nat) : List Char :=
  Nat.toDigits 10 n

def stripZeros (digits : List Char) : List Char :=
  (digits.reverse.dropWhile (· = '0')).reverse

def exponentText (exponent : Int) : List Char :=
  let digits := digitsOf exponent.natAbs
  let padded := if digits.length < 2 then '0' :: digits else digits
  'e' :: (if exponent < 0 then '-' else '+') :: padded

def Layout.place (layout : Layout) (digits : List Char) (exponent : Int) : List Char :=
  if layout.least ≤ exponent ∧ exponent < layout.limit then
    if exponent < 0 then
      '0' :: '.' :: (List.replicate (-exponent - 1).toNat '0' ++ digits)
    else
      let whole := exponent.toNat + 1
      let front := digits.take whole ++ List.replicate (whole - digits.length) '0'
      match digits.drop whole with
      | [] => if layout.keepsPoint then front ++ ['.', '0'] else front
      | fraction => front ++ '.' :: fraction
  else
    match digits with
    | [] => []
    | [digit] => digit :: exponentText exponent
    | digit :: fraction => digit :: '.' :: fraction ++ exponentText exponent

def Layout.decimal (layout : Layout) (decimal : Decimal) : List Char :=
  let digits := digitsOf decimal.digits
  layout.place (stripZeros digits) (decimal.power + digits.length - 1)

def Layout.magnitude (layout : Layout) : Exact → List Char
  | .nan => "nan".toList
  | .infinite _ => "inf".toList
  | .finite _ 0 _ => layout.place ['0'] 0
  | .finite _ mantissa exponent => layout.decimal (shortest mantissa exponent)

def Exact.showsMinus : Exact → Bool
  | .nan => false
  | .infinite negative => negative
  | .finite negative _ _ => negative

def Layout.write (layout : Layout) (x : Float) : String :=
  let exact := decode x
  String.ofList
    (if exact.showsMinus then '-' :: layout.magnitude exact else layout.magnitude exact)

def Layout.writeSigned (layout : Layout) (x : Float) : String :=
  let exact := decode x
  String.ofList ((if exact.showsMinus then '-' else '+') :: layout.magnitude exact)

end Lingo.Numeral
