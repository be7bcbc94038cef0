/-
Reading of JSON texts.

Of entries with one name the last value counts, at the place of the first.
-/

import Lingo.Json.Basic
import Lingo.Numeral.Reading

namespace Lingo.Json.Reader

abbrev Found (α : Type) := α × List Char

def refuse {α : Type} : Except Crash α :=
  .error .malformedJson

def isSpace (char : Char) : Bool :=
  char = ' ' || char = '\t' || char = '\n' || char = '\r'

def skipSpace (chars : List Char) : List Char :=
  chars.dropWhile isSpace

/-! ### Texts -/

def hexValue? (char : Char) : Option Nat :=
  if '0' ≤ char ∧ char ≤ '9' then some (char.toNat - '0'.toNat)
  else if 'a' ≤ char ∧ char ≤ 'f' then some (char.toNat - 'a'.toNat + 10)
  else if 'A' ≤ char ∧ char ≤ 'F' then some (char.toNat - 'A'.toNat + 10)
  else none

def unit : List Char → Except Crash (Found Nat)
  | a :: b :: c :: d :: rest =>
      match hexValue? a, hexValue? b, hexValue? c, hexValue? d with
      | some a, some b, some c, some d => .ok (((a * 16 + b) * 16 + c) * 16 + d, rest)
      | _, _, _, _ => refuse
  | _ => refuse

def isHigh (unit : Nat) : Bool := decide (0xd800 ≤ unit ∧ unit < 0xdc00)

def isLow (unit : Nat) : Bool := decide (0xdc00 ≤ unit ∧ unit < 0xe000)

def charOf (code : Nat) : Char :=
  if isHigh code || isLow code then '�' else Char.ofNat code

def numbered (chars : List Char) : Except Crash (Found Char) := do
  let (first, rest) ← unit chars
  match rest with
  | '\\' :: 'u' :: more =>
      if isHigh first then do
        let (second, behind) ← unit more
        if isLow second then
          return (charOf (0x10000 + (first - 0xd800) * 0x400 + (second - 0xdc00)), behind)
        else return (charOf first, rest)
      else return (charOf first, rest)
  | _ => return (charOf first, rest)

def escaped? : Char → Option Char
  | '"' => some '"'
  | '\\' => some '\\'
  | '/' => some '/'
  | 'b' => some '\x08'
  | 'f' => some '\x0c'
  | 'n' => some '\n'
  | 'r' => some '\r'
  | 't' => some '\t'
  | _ => none

def textFrom : Nat → List Char → List Char → Except Crash (Found String)
  | 0, _, _ => refuse
  | _ + 1, _, [] => refuse
  | _ + 1, done, '"' :: rest => .ok (String.ofList done.reverse, rest)
  | fuel + 1, done, '\\' :: 'u' :: rest => do
      let (char, behind) ← numbered rest
      textFrom fuel (char :: done) behind
  | fuel + 1, done, '\\' :: letter :: rest =>
      match escaped? letter with
      | some char => textFrom fuel (char :: done) rest
      | none => refuse
  | fuel + 1, done, char :: rest =>
      if char.toNat < 0x20 ∨ char = '\\' then refuse else textFrom fuel (char :: done) rest

def textBehind (chars : List Char) : Except Crash (Found String) :=
  textFrom (chars.length + 1) [] chars

/-! ### Numbers -/

def isDigit (char : Char) : Bool :=
  decide ('0' ≤ char ∧ char ≤ '9')

def wholePart : List Char → Except Crash (Found (List Char))
  | '0' :: rest => .ok (['0'], rest)
  | chars =>
      match chars.takeWhile isDigit with
      | [] => refuse
      | digits => .ok (digits, chars.dropWhile isDigit)

def fractionPart : List Char → List Char × List Char
  | '.' :: rest =>
      match rest.takeWhile isDigit with
      | [] => ([], '.' :: rest)
      | digits => ('.' :: digits, rest.dropWhile isDigit)
  | chars => ([], chars)

def exponentPart : List Char → List Char × List Char
  | mark :: rest =>
      if mark = 'e' ∨ mark = 'E' then
        let (sign, behind) : List Char × List Char := match rest with
          | '+' :: more => (['+'], more)
          | '-' :: more => (['-'], more)
          | more => ([], more)
        match behind.takeWhile isDigit with
        | [] => ([], mark :: rest)
        | digits => (mark :: sign ++ digits, behind.dropWhile isDigit)
      else ([], mark :: rest)
  | [] => ([], [])

def numberOf (whole fraction exponent : List Char) : Except Crash Json :=
  if fraction.isEmpty && exponent.isEmpty then
    match Numeral.readInt? (String.ofList whole) with
    | some value => .ok (.int value)
    | none => .error .unreadable
  else
    match Numeral.readFloat? (String.ofList (whole ++ fraction ++ exponent)) with
    | some value => .ok (.float value)
    | none => refuse

def number (sign chars : List Char) : Except Crash (Found Json) := do
  let (whole, rest) ← wholePart chars
  let (fraction, rest) := fractionPart rest
  let (exponent, rest) := exponentPart rest
  return (← numberOf (sign ++ whole) fraction exponent, rest)

/-! ### Values -/

def word (spelling : String) (value : Json) (chars : List Char) : Except Crash (Found Json) :=
  if spelling.toList.isPrefixOf chars then .ok (value, chars.drop spelling.length) else refuse

def single : List Char → Except Crash (Found Json)
  | '"' :: rest => do
      let (value, behind) ← textBehind rest
      return (.text value, behind)
  | 'n' :: rest => word "null" .null ('n' :: rest)
  | 't' :: rest => word "true" (.bool true) ('t' :: rest)
  | 'f' :: rest => word "false" (.bool false) ('f' :: rest)
  | 'N' :: rest => word "NaN" (.float Numeral.notANumber) ('N' :: rest)
  | 'I' :: rest => word "Infinity" (.float (Numeral.infinity false)) ('I' :: rest)
  | '-' :: 'I' :: rest => word "-Infinity" (.float (Numeral.infinity true)) ('-' :: 'I' :: rest)
  | '-' :: rest => number ['-'] rest
  | chars => number [] chars

mutual

def value : Nat → List Char → Except Crash (Found Json)
  | 0, _ => .error .tooDeep
  | fuel + 1, '[' :: rest =>
      match skipSpace rest with
      | ']' :: behind => .ok (.array [], behind)
      | chars => itemsFrom fuel [] chars
  | fuel + 1, '\x7b' :: rest =>
      match skipSpace rest with
      | '\x7d' :: behind => .ok (.object [], behind)
      | chars => entriesFrom fuel [] chars
  | _ + 1, chars => single chars

def itemsFrom : Nat → List Json → List Char → Except Crash (Found Json)
  | 0, _, _ => .error .tooDeep
  | fuel + 1, done, chars => do
      let (item, rest) ← value fuel chars
      match skipSpace rest with
      | ']' :: behind => return (.array (item :: done).reverse, behind)
      | ',' :: behind => itemsFrom fuel (item :: done) (skipSpace behind)
      | _ => refuse

def entriesFrom : Nat → List (String × Json) → List Char → Except Crash (Found Json)
  | 0, _, _ => .error .tooDeep
  | fuel + 1, done, '"' :: chars => do
      let (name, rest) ← textBehind chars
      match skipSpace rest with
      | ':' :: behind => do
          let (item, rest) ← value fuel (skipSpace behind)
          let known := insert name item done
          match skipSpace rest with
          | '\x7d' :: behind => return (.object known, behind)
          | ',' :: behind => entriesFrom fuel known (skipSpace behind)
          | _ => refuse
      | _ => refuse
  | _ + 1, _, _ => refuse

end

end Reader

def read (text : String) : Except Crash Json := do
  let chars := Reader.skipSpace text.toList
  let (value, rest) ← Reader.value (2 * chars.length + 2) chars
  if (Reader.skipSpace rest).isEmpty then return value else Reader.refuse

end Lingo.Json
