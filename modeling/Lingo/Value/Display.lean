/-
The text of a value.

A list shows texts as they are, and a dictionary in double quotes; inside itself a dictionary is
shown by three dots.
-/

import Lingo.Store.Basic
import Lingo.Text.Quoted

namespace Lingo.Display

def slotText (objectText : ObjectId → Except Crash String) : Slot → Except Crash String
  | .object id => objectText id
  | .bare value => value.display
  | .nothing => .ok "None"

def entryText (objectText : ObjectId → Except Crash String) (entry : ObjectId × Slot) :
    Except Crash String := do
  let key ← objectText entry.1
  let value ← slotText objectText entry.2
  return key ++ ": " ++ value

def bracketed (left right : String) (parts : List String) : String :=
  left ++ ", ".intercalate parts ++ right

/-- The text of an object, up to a depth of nesting.  `quotes` says that a text is put in
double quotes, and `within` lists the dictionaries that are being shown. -/
def object (store : Store) : Nat → Bool → List DictId → ObjectId → Except Crash String
  | 0, _, _, _ => .error .tooDeep
  | depth + 1, quotes, within, id =>
      match (store.object id).payload with
      | .number value => value.display
      | .text value => .ok (if quotes then "\"" ++ value ++ "\"" else value)
      | .list items => do
          let parts ←
            (store.items items).toList.mapM (slotText (object store depth false within))
          return bracketed "[" "]" parts
      | .dict entries =>
          if entries ∈ within then .ok "\x7b...\x7d"
          else do
            let parts ←
              (store.entries entries).toList.mapM
                (entryText (object store depth true (entries :: within)))
            return bracketed "\x7b" "\x7d" parts
      | .function closure => .ok ("<function " ++ closure.name ++ ">")
      | .builtin name => .ok ("<built-in function " ++ name ++ ">")
      | .plain => .ok "<value>"
      | .bodiless name => .ok ("<function " ++ name ++ ">")

def depthLimit : Nat := 900

def text (store : Store) (id : ObjectId) : Except Crash String :=
  object store depthLimit false [] id

def exhibit (store : Store) (value : Slot) : Except Crash String :=
  slotText (object store depthLimit true []) value

def symbol (store : Store) (entry : String × Option ObjectId) : Except Crash String := do
  let value : Slot := match entry.2 with
    | some id => .object id
    | none => .nothing
  return Text.quoted entry.1 ++ ": " ++ (← exhibit store value)

def table (store : Store) (id : TableId) : Except Crash String := do
  return bracketed "\x7b" "\x7d" (← (store.table id).symbols.mapM (symbol store))

end Lingo.Display
