/-
Templates: texts with places that a scalar fills.

A place is a percent sign, flags, a width, a precision and a letter that says how the scalar is
written.
-/

import Lingo.Numeral.Fixed
import Lingo.Scalar.Basic
import Lingo.Text.Quoted

namespace Lingo.Scalar.Template

attribute [local instance (high)] instPowNat

structure Place where
  left : Bool := false
  plus : Bool := false
  blank : Bool := false
  alternate : Bool := false
  zeros : Bool := false
  width : Nat := 0
  precision : Option Nat := none
deriving Repr, Inhabited

def readFlags (place : Place) : List Char → Place × List Char
  | '-' :: rest => readFlags { place with left := true } rest
  | '+' :: rest => readFlags { place with plus := true } rest
  | ' ' :: rest => readFlags { place with blank := true } rest
  | '#' :: rest => readFlags { place with alternate := true } rest
  | '0' :: rest => readFlags { place with zeros := true } rest
  | rest => (place, rest)

def pad (place : Place) (fill : Char) (sign body : List Char) : List Char :=
  let missing := place.width - (sign.length + body.length)
  if place.left then sign ++ body ++ List.replicate missing ' '
  else if fill = '0' then sign ++ List.replicate missing '0' ++ body
  else List.replicate missing ' ' ++ sign ++ body

def signOf (place : Place) (negative : Bool) : List Char :=
  if negative then ['-'] else if place.plus then ['+'] else if place.blank then [' '] else []

def padNumber (place : Place) (sign body : List Char) : List Char :=
  pad place (if place.zeros then '0' else ' ') sign body

def fillText (place : Place) (text : String) : List Char :=
  let body := match place.precision with
    | some count => text.toList.take count
    | none => text.toList
  pad place ' ' [] body

def fillDigits (place : Place) (negative : Bool) (mark digits : List Char) : List Char :=
  let least := place.precision.getD 0
  let body := List.replicate (least - digits.length) '0' ++ digits
  padNumber place (signOf place negative ++ mark) body

def fillDecimal (place : Place) (value : Scalar) : Except Crash (List Char) := do
  let n ← match value with
    | int n => pure n
    | float x => truncate x
    | _ => throw .operandKinds
  let _ ← intText n
  return fillDigits place (decide (n < 0)) [] (Numeral.digitsOf n.natAbs)

def fillRadix (place : Place) (radix : Nat) (mark : List Char) (upper : Bool)
    (value : Scalar) : Except Crash (List Char) :=
  match value with
  | int n =>
      let digits := Nat.toDigits radix n.natAbs
      let digits := if upper then digits.map Char.toUpper else digits
      .ok (fillDigits place (decide (n < 0)) (if place.alternate then mark else []) digits)
  | _ => .error .operandKinds

def fillFloat (place : Place) (upper : Bool) (write : Nat → Nat → Int → List Char)
    (value : Scalar) : Except Crash (List Char) := do
  let x ← match value with
    | int n => floatOfInt n
    | float x => pure x
    | _ => throw .operandKinds
  let exact := Numeral.decode x
  let body := match exact with
    | .nan => "nan".toList
    | .infinite _ => "inf".toList
    | .finite _ mantissa exponent => write (place.precision.getD 6) mantissa exponent
  let body := if upper then body.map Char.toUpper else body
  return padNumber place (signOf place exact.showsMinus) body

def fillChar (place : Place) : Scalar → Except Crash (List Char)
  | int n =>
      if 0 ≤ n ∧ n < 0x110000 then .ok (pad place ' ' [] [Char.ofNat n.toNat])
      else .error .tooLarge
  | text s =>
      match s.toList with
      | [char] => .ok (pad place ' ' [] [char])
      | _ => .error .operandKinds
  | _ => .error .operandKinds

def exhibit (quote : String → String) : Scalar → Except Crash String
  | text s => .ok (quote s)
  | value => value.display

def fillPlace (place : Place) (letter : Char) (value : Scalar) : Except Crash (List Char) :=
  match letter with
  | 's' => do return fillText place (← value.display)
  | 'r' => do return fillText place (← exhibit Text.quoted value)
  | 'a' => do return fillText place (← exhibit Text.quotedAscii value)
  | 'd' | 'i' | 'u' => fillDecimal place value
  | 'o' => fillRadix place 8 ['0', 'o'] false value
  | 'x' => fillRadix place 16 ['0', 'x'] false value
  | 'X' => fillRadix place 16 ['0', 'X'] true value
  | 'e' => fillFloat place false (Numeral.scientific place.alternate) value
  | 'E' => fillFloat place true (Numeral.scientific place.alternate) value
  | 'f' => fillFloat place false (Numeral.fixed place.alternate) value
  | 'F' => fillFloat place true (Numeral.fixed place.alternate) value
  | 'g' => fillFloat place false (Numeral.general place.alternate) value
  | 'G' => fillFloat place true (Numeral.general place.alternate) value
  | 'c' => fillChar place value
  | _ => .error .unreadable

def checkStar (value : Scalar) (unused : Bool) (limit : Int) : Except Crash Unit :=
  match value with
  | int n =>
      if !unused then .error .operandKinds
      else if -limit ≤ n ∧ n < limit then .ok ()
      else .error .tooLarge
  | _ => .error .operandKinds

def readSize (value : Scalar) (unused : Bool) (limit : Nat) (chars : List Char) :
    Except Crash (Nat × Bool × List Char) := do
  match chars with
  | '*' :: rest =>
      checkStar value unused limit
      return (0, false, rest)
  | _ =>
      let size := Text.number (chars.takeWhile Char.isDigit)
      if size < limit then return (size, unused, chars.dropWhile Char.isDigit)
      else throw .unreadable

def widthLimit : Nat := 2 ^ (63 : Nat)

def precisionLimit : Nat := 2 ^ (31 : Nat)

def readPrecision (value : Scalar) (unused : Bool) (place : Place) (chars : List Char) :
    Except Crash (Place × Bool × List Char) := do
  match chars with
  | '.' :: rest =>
      let (size, unused, rest) ← readSize value unused precisionLimit rest
      return ({ place with precision := some size }, unused, rest)
  | _ => return (place, unused, chars)

def dropSizeLetter : List Char → List Char
  | 'h' :: rest => rest
  | 'l' :: rest => rest
  | 'L' :: rest => rest
  | chars => chars

def readPlace (value : Scalar) (unused : Bool) (chars : List Char) :
    Except Crash (Place × Bool × List Char) := do
  let (place, rest) := readFlags {} chars
  let (width, unused, rest) ← readSize value unused widthLimit rest
  let (place, unused, rest) ← readPrecision value unused { place with width } rest
  return (place, unused, dropSizeLetter rest)

/-- Fills the places of a template from left to right; `unused` says that the scalar is still
to be used.  Two percent signs stand for one. -/
def fillFrom (value : Scalar) : Nat → Bool → List Char → Except Crash (List Char)
  | 0, unused, _ => if unused then .error .operandKinds else .ok []
  | _ + 1, unused, [] => if unused then .error .operandKinds else .ok []
  | fuel + 1, unused, '%' :: '%' :: rest => do
      return '%' :: (← fillFrom value fuel unused rest)
  | _ + 1, _, '%' :: '(' :: _ => .error .operandKinds
  | fuel + 1, unused, '%' :: rest => do
      match ← readPlace value unused rest with
      | (_, _, []) => throw .unreadable
      | (_, false, _) => throw .operandKinds
      | (place, true, letter :: tail) =>
          let filled ← fillPlace place letter value
          return filled ++ (← fillFrom value fuel false tail)
  | fuel + 1, unused, char :: rest => do
      return char :: (← fillFrom value fuel unused rest)

def fill (template : String) (value : Scalar) : Except Crash String := do
  let chars := template.toList
  return String.ofList (← fillFrom value (chars.length + 1) true chars)

end Lingo.Scalar.Template
