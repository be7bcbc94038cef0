/-
JSON values and their texts.
-/

import Lingo.Scalar.Basic
import Lingo.Text.Quoted

namespace Lingo

/-- A JSON value.  Numbers with a fraction or an exponent are floating. -/
inductive Json where
  | null
  | bool (value : Bool)
  | int (value : Int)
  | float (value : Float)
  | text (value : String)
  | array (items : List Json)
  | object (entries : List (String × Json))
deriving Inhabited

namespace Json

mutual

def shown : Json → Except Crash String
  | null => .ok "None"
  | bool value => .ok (if value then "True" else "False")
  | int value => Scalar.intText value
  | float value => .ok (Numeral.Layout.number.write value)
  | text value => .ok (Text.quoted value)
  | array items => do return "[" ++ ", ".intercalate (← shownItems items) ++ "]"
  | object entries => do return "\x7b" ++ ", ".intercalate (← shownEntries entries) ++ "\x7d"

def shownItems : List Json → Except Crash (List String)
  | [] => .ok []
  | item :: rest => do return (← shown item) :: (← shownItems rest)

def shownEntries : List (String × Json) → Except Crash (List String)
  | [] => .ok []
  | (key, value) :: rest => do
      return (Text.quoted key ++ ": " ++ (← shown value)) :: (← shownEntries rest)

end

def display : Json → Except Crash String
  | text value => .ok value
  | other => other.shown

def keys : Json → Except Crash (List Json)
  | object entries => .ok (entries.map fun entry => text entry.1)
  | array items => .ok items
  | text value => .ok (value.toList.map fun char => text (String.singleton char))
  | _ => .error .operandKinds

def index? : Json → Option Int
  | int value => some value
  | bool value => some (if value then 1 else 0)
  | _ => none

def element (items : List Json) (index : Int) : Except Crash Json :=
  let place := if index < 0 then index + items.length else index
  match if 0 ≤ place then items[place.toNat]? else none with
  | some item => .ok item
  | none => .error .missingElement

def get (value key : Json) : Except Crash Json :=
  match value, key with
  | object entries, text name =>
      match entries.lookup name with
      | some found => .ok found
      | none => .error .missingKey
  | array items, _ =>
      match key.index? with
      | some index => element items index
      | none => .error .operandKinds
  | _, _ => .error .operandKinds

def insert (name : String) (value : Json) : List (String × Json) → List (String × Json)
  | [] => [(name, value)]
  | (known, old) :: rest =>
      if known = name then (known, value) :: rest else (known, old) :: insert name value rest

end Json

end Lingo
