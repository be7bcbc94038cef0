/-
Numbers read from text.

Blanks around a number are ignored, single underscores may stand between digits, and digits of
any script count.
-/

import Lingo.Numeral.Binary
import Lingo.Text.Blank
import Lingo.Text.Digit

namespace Lingo.Numeral

attribute [local instance (high)] instPowNat

def digitLimit : Nat := 4300

/-- Brings digits and blanks of other scripts to their ASCII forms.  Any other
character beyond ASCII stands for itself nowhere in a number. -/
def plainChar (char : Char) : Char :=
  if char.toNat < 127 then char
  else if Text.isBlank char then ' '
  else match Text.digitValue? char with
    | some value => Text.digitChar value
    | none => '?'

def isPlainBlank (char : Char) : Bool :=
  char == ' ' || decide (0x09 ≤ char.toNat ∧ char.toNat ≤ 0x0d)

def plainChars (text : String) : List Char :=
  Text.trimBoth isPlainBlank (text.toList.map plainChar)

def splitSign : List Char → Bool × List Char
  | '-' :: rest => (true, rest)
  | '+' :: rest => (false, rest)
  | rest => (false, rest)

/-- Removes underscores, each of which must stand between two digits; `last` is
the character before. -/
def dropUnderscores (last : Char) : List Char → Option (List Char)
  | [] => if last = '_' then none else some []
  | '_' :: rest => if last.isDigit then dropUnderscores '_' rest else none
  | char :: rest =>
      if last = '_' ∧ ¬ char.isDigit then none
      else (dropUnderscores char rest).map (char :: ·)

def readInt? (text : String) : Option Int := do
  let (negative, body) := splitSign (plainChars text)
  let digits ← dropUnderscores ' ' body
  if digits.isEmpty ∨ ¬ digits.all Char.isDigit ∨ digitLimit < digits.length then none
  else
    let magnitude : Int := Text.number digits
    some (if negative then -magnitude else magnitude)

/-- The number `digits * 10 ^ power`, where `digits` are the characters of a natural
number.  Powers far outside the range are not computed. -/
def ofDigits (negative : Bool) (digits : List Char) (power : Int) : Float :=
  let magnitude := Text.number digits
  let significant := (digits.dropWhile (· = '0')).length
  if magnitude = 0 then zero negative
  else if 400 < power + significant then infinity negative
  else if power + significant < -400 then zero negative
  else if 0 ≤ power then ofRatio negative (magnitude * 10 ^ power.toNat) 1
  else ofRatio negative magnitude (10 ^ (-power).toNat)

def readExponent? : List Char → Option Int
  | [] => some 0
  | mark :: rest =>
      let (negative, digits) := splitSign rest
      if (mark = 'e' ∨ mark = 'E') ∧ ¬ digits.isEmpty ∧ digits.all Char.isDigit then
        let magnitude : Int := Text.number digits
        some (if negative then -magnitude else magnitude)
      else none

def splitFraction : List Char → List Char × List Char
  | '.' :: rest => (rest.takeWhile Char.isDigit, rest.dropWhile Char.isDigit)
  | rest => ([], rest)

def readFloat? (text : String) : Option Float := do
  let chars ← dropUnderscores ' ' (plainChars text)
  let (negative, body) := splitSign chars
  let word := String.ofList (body.map Char.toLower)
  if word = "inf" ∨ word = "infinity" then some (infinity negative)
  else if word = "nan" then some notANumber
  else
    let whole := body.takeWhile Char.isDigit
    let (fraction, tail) := splitFraction (body.dropWhile Char.isDigit)
    let exponent ← readExponent? tail
    if whole.isEmpty ∧ fraction.isEmpty then none
    else some (ofDigits negative (whole ++ fraction) (exponent - fraction.length))

end Lingo.Numeral
