/-
What the functions of the language do.

Arguments are checked from left to right, and the first that will not do is reported at the
place of the call.  The functions that load scripts are defined with the evaluator.
-/

import Lingo.Eval.Builtin
import Lingo.Scalar.Sort
import Lingo.Text.Search
import Lingo.Value.Display

namespace Lingo

structure Invocation where
  start : Option Position
  stop : Option Position
  context : Context
deriving DecidableEq, Repr, Inhabited

namespace Invocation

def fail {α : Type} (call : Invocation) (complaint : Complaint) : Eval α :=
  Eval.fail (Operation.fault complaint call.start call.stop (some call.context))

variable (call : Invocation)

def payload (id : ObjectId) : Eval Payload := do
  return (← Activity.object id).payload

def text (ordinal : Option Nat) (id : ObjectId) : Eval String := do
  match ← payload id with
  | .text value => return value
  | _ => call.fail (.argumentKind ordinal "a string")

def number (ordinal : Option Nat) (id : ObjectId) : Eval Scalar := do
  match ← payload id with
  | .number value => return value
  | _ => call.fail (.argumentKind ordinal "a number")

def list (ordinal : Option Nat) (id : ObjectId) : Eval ListId := do
  match ← payload id with
  | .list items => return items
  | _ => call.fail (.argumentKind ordinal "a list")

def dict (ordinal : Option Nat) (id : ObjectId) : Eval DictId := do
  match ← payload id with
  | .dict entries => return entries
  | _ => call.fail (.argumentKind ordinal "a dictionary")

def character (id : ObjectId) : Eval (List Char) := do
  let chars := (← call.text (some 1) id).toList
  if 1 < chars.length then call.fail .singleCharacter else return chars

end Invocation

namespace Library

open Activity

def null : Slot := .object Store.nullId

def truth (b : Bool) : Slot :=
  .object (if b then Store.trueId else Store.falseId)

def fresh (payload : Payload) : Eval Slot := do
  return .object (← makeBare payload)

def freshNumber (value : Scalar) : Eval Slot :=
  fresh (.number value)

def freshText (chars : List Char) : Eval Slot :=
  fresh (.text (String.ofList chars))

def freshList (items : List Slot) : Eval Slot := do
  return .object (← makeList items.toArray)

def itemsOf (id : ListId) : Eval (Array Slot) := do
  return (← store).items id

/-! ### Kinds -/

def isNumber : Payload → Bool
  | .number _ => true
  | _ => false

def isText : Payload → Bool
  | .text _ => true
  | _ => false

def isList : Payload → Bool
  | .list _ => true
  | _ => false

def isFunction : Payload → Bool
  | .function _ => true
  | .builtin _ => true
  | .bodiless _ => true
  | _ => false

def kindTest (test : Payload → Bool) (value : ObjectId) : Eval Slot := do
  return truth (test (← object value).payload)

/-! ### Input, output and conversions -/

def printValue (value : ObjectId) : Eval Slot := do
  let text ← settle (Display.text (← store) value)
  Activity.print text
  return null

def toText (call : Invocation) (value : ObjectId) : Eval Slot := do
  if isFunction (← object value).payload then call.fail .unprintable
  else fresh (.text (← settle (Display.text (← store) value)))

def convert (call : Invocation) (conversion : Scalar → Except Crash Scalar) (value : ObjectId) :
    Eval Slot := do
  match ((← store).scalar? value).map conversion with
  | some (.ok result) => freshNumber result
  | _ => call.fail .notInteger

def toInt (value : Scalar) : Except Crash Scalar := do
  return .int (← value.toInt)

def toFloat (value : Scalar) : Except Crash Scalar := do
  return .float (← value.toFloat)

/-! ### Texts -/

def concat (call : Invocation) (left right : ObjectId) : Eval Slot := do
  let a ← call.text (some 0) left
  let b ← call.text (some 1) right
  fresh (.text (a ++ b))

def splitChar (call : Invocation) (subject separator : ObjectId) : Eval Slot := do
  let chars := (← call.text (some 0) subject).toList
  match ← call.character separator with
  | char :: _ =>
      freshList ((Text.pieces char chars).map fun piece => .bare (.text (String.ofList piece)))
  | [] => crash .unreadable

def slice (call : Invocation) (subject first last : ObjectId) : Eval Slot := do
  let chars := (← call.text (some 0) subject).toList
  let start ← call.number (some 1) first
  let stop ← call.number (some 2) last
  let length : Scalar := .int chars.length
  if ← settle (start.gt length) then call.fail .startBeyondText
  else if ← settle (stop.gt length) then call.fail .stopBeyondText
  else if ← settle (stop.lt start) then call.fail .stopBeforeStart
  else
    match start, stop with
    | .int a, .int b => freshText (Text.slice chars a b)
    | _, _ => crash .operandKinds

def frequency (call : Invocation) (subject wanted : ObjectId) : Eval Slot := do
  let chars := (← call.text (some 0) subject).toList
  match ← call.character wanted with
  | char :: _ => freshNumber (.int (chars.count char))
  | [] => freshNumber (.int 0)

def findIndex (call : Invocation) (subject wanted : ObjectId) : Eval Slot := do
  let chars := (← call.text (some 0) subject).toList
  match ← call.character wanted with
  | char :: _ =>
      match chars.findIdx? (· = char) with
      | some index => freshNumber (.int index)
      | none => freshNumber (.int (-1))
  | [] => freshNumber (.int 0)

/-! ### Lists -/

def append (call : Invocation) (subject value : ObjectId) : Eval Slot := do
  let items ← call.list (some 0) subject
  changeStore (·.modifyItems items (·.push (.object value)))
  return null

def extend (call : Invocation) (left right : ObjectId) : Eval Slot := do
  let a ← call.list (some 0) left
  let b ← call.list (some 1) right
  let added ← itemsOf b
  changeStore (·.modifyItems a (· ++ added))
  return null

def length (call : Invocation) (subject : ObjectId) : Eval Slot := do
  let items ← call.list none subject
  freshNumber (.int (← itemsOf items).size)

def placeIn (call : Invocation) (complaint : Complaint) (items : ListId) (index : ObjectId) :
    Eval Nat := do
  let value ← call.number (some 1) index
  match Operation.place? (← itemsOf items).size value with
  | some place => return place
  | none => call.fail complaint

def pop (call : Invocation) (subject index : ObjectId) : Eval Slot := do
  let items ← call.list (some 0) subject
  let place ← placeIn call .popOutOfBounds items index
  let removed := (← itemsOf items).getD place .nothing
  changeStore (·.modifyItems items (·.eraseIdxIfInBounds place))
  return removed

/-- Inserts what a value holds, bare, before a place.  The place may be just behind the
list, and a negative one stops at its front. -/
def insert (call : Invocation) (subject index value : ObjectId) : Eval Slot := do
  let items ← call.list (some 0) subject
  let position ← call.number (some 1) index
  let size := (← itemsOf items).size
  if ← settle (position.gt (.int size)) then call.fail .insertBeyondList
  else
    let held ← scalar value
    match position with
    | .int n =>
        if n < -Scalar.countLimit then crash .tooLarge
        else
          let place := Text.sliceBound size n
          changeStore (·.modifyItems items (·.insertIdxIfInBounds place (.bare held)))
          return null
    | _ => crash .operandKinds

def heldScalars (store : Store) : List Slot → Option (List Scalar)
  | [] => some []
  | .object id :: rest => do
      let value ← store.scalar? id
      return value :: (← heldScalars store rest)
  | _ => none

def sort (call : Invocation) (subject : ObjectId) : Eval Slot := do
  let items ← call.list none subject
  let held ← part (heldScalars (← store) (← itemsOf items).toList)
  freshList ((← settle (Scalar.sort held)).map .bare)

def countUp (first : Int) : Nat → Array Slot → Activity (Array Slot)
  | 0, made => return made
  | count + 1, made => do
      let id ← makeBare (.number (.int first))
      countUp (first + 1) count (made.push (.object id))

def range (call : Invocation) (first limit : ObjectId) : Eval Slot := do
  let a ← call.number (some 0) first
  let b ← call.number (some 0) limit
  match a, b with
  | .int a, .int b =>
      let made ← countUp a (b - a).toNat #[]
      return .object (← makeList made)
  | _, _ => crash .operandKinds

/-! ### Lists and dictionaries -/

def setElement (call : Invocation) (subject index value : ObjectId) : Eval Slot := do
  match (← object subject).payload with
  | .list items =>
      let place ← placeIn call .setOutOfBounds items index
      changeStore (·.modifyItems items (·.setIfInBounds place (.object value)))
      return null
  | .dict entries =>
      let key ← call.text (some 1) index
      changeStore (·.setEntry entries key index (.object value))
      return null
  | _ => call.fail (.argumentKind (some 0) "a list")

def getElement (call : Invocation) (subject index : ObjectId) : Eval Slot := do
  match (← object subject).payload with
  | .list items =>
      let place ← placeIn call .getOutOfBounds items index
      return (← itemsOf items).getD place .nothing
  | .dict entries =>
      let key ← call.text (some 1) index
      let store ← store
      match (store.keyPlace? entries key).bind ((store.entries entries)[·]?) with
      | some entry => return entry.2
      | none => call.fail .missingKey
  | _ => call.fail (.argumentKind (some 0) "a list or a dictionary")

def hasKey (call : Invocation) (subject key : ObjectId) : Eval Slot := do
  let entries ← call.dict (some 0) subject
  let text ← call.text (some 1) key
  return truth ((← store).keyPlace? entries text).isSome

/-! ### Numbers -/

def unaryNumber (call : Invocation) (function : Scalar → Except Crash Scalar) (value : ObjectId) :
    Eval Slot := do
  let number ← call.number none value
  freshNumber (← settle (function number))

def binaryNumber (call : Invocation) (function : Scalar → Scalar → Except Crash Scalar)
    (left right : ObjectId) : Eval Slot := do
  let a ← call.number none left
  let b ← call.number none right
  freshNumber (← settle (function a b))

def octal (value : Scalar) : Except Crash Scalar := do
  return .text (← value.octal)

def factorial (n : Nat) : Nat :=
  (List.range n).foldl (fun product k => product * (k + 1)) 1

/-- The factorial of a number, which also becomes the value of the argument itself. -/
def fact (call : Invocation) (value : ObjectId) : Eval Slot := do
  match ← call.number none value with
  | .int n =>
      let result : Scalar := .int (factorial n.toNat)
      changeStore (·.modifyObject value fun object => { object with payload := .number result })
      freshNumber result
  | _ => crash .operandKinds

def dividedBy (value : Scalar) (divisor : Int) : Except Crash Bool := do
  return (← value.mod (.int divisor)).isZero

/-- Whether a number is divided by one of `divisor`, `divisor + 2`, and so on in steps of
six, `count` times. -/
def dividedFrom (value : Scalar) : Nat → Int → Except Crash Bool
  | 0, _ => .ok false
  | count + 1, divisor => do
      if ← dividedBy value divisor then return true
      else if ← dividedBy value (divisor + 2) then return true
      else dividedFrom value count (divisor + 6)

def wholeRoot (value : Scalar) : Except Crash Int := do
  (← value.pow (.float 0.5)).toInt

/-- Beyond the multiples of two and three, only divisors next to a multiple of six matter, up to the
root of the number. -/
def primality (rootOf : Scalar → Except Crash Int) (value : Scalar) : Except Crash Bool := do
  if value.equals (.int 1) then return false
  else if value.equals (.int 2) || value.equals (.int 3) then return true
  else if ← dividedBy value 2 then return false
  else if ← dividedBy value 3 then return false
  else
    let root ← rootOf value
    return !(← dividedFrom value ((root + 1).toNat / 6) 5)

def isPrime (rootOf : Scalar → Except Crash Int) (call : Invocation) (value : ObjectId) :
    Eval Slot := do
  let number ← call.number none value
  let remainder ← settle (number.mod (.int 1))
  if !remainder.isZero then call.fail .notWhole
  else if ← settle (number.le (.int 0)) then call.fail .notPositive
  else return truth (← settle (primality rootOf number))

def answer (call : Invocation) : Builtin → List ObjectId → Eval Slot
  | .print, [value] => printValue value
  | .input, [] => do fresh (.text (← readLine))
  | .clear, [] => return null
  | .isNumber, [value] => kindTest isNumber value
  | .isString, [value] => kindTest isText value
  | .isList, [value] => kindTest isList value
  | .isFunction, [value] => kindTest isFunction value
  | .append, [subject, value] => append call subject value
  | .set, [subject, index, value] => setElement call subject index value
  | .pop, [subject, index] => pop call subject index
  | .extend, [left, right] => extend call left right
  | .get, [subject, index] => getElement call subject index
  | .len, [subject] => length call subject
  | .toStr, [value] => toText call value
  | .toInt, [value] => convert call toInt value
  | .toFloat, [value] => convert call toFloat value
  | .concat, [left, right] => concat call left right
  | .splitChar, [subject, separator] => splitChar call subject separator
  | .slice, [subject, first, last] => slice call subject first last
  | .frequency, [subject, wanted] => frequency call subject wanted
  | .findIndex, [subject, wanted] => findIndex call subject wanted
  | .insert, [subject, index, value] => insert call subject index value
  | .abs, [value] => unaryNumber call Scalar.abs value
  | .hasKey, [subject, key] => hasKey call subject key
  | .range, [first, limit] => range call first limit
  | .min, [left, right] => binaryNumber call Scalar.min left right
  | .max, [left, right] => binaryNumber call Scalar.max right left
  | .oct, [value] => unaryNumber call octal value
  | .fact, [value] => fact call value
  | .sort, [subject] => sort call subject
  | .isPrime, [value] => isPrime wholeRoot call value
  | _, _ => crash .missingPart

end Library

end Lingo
