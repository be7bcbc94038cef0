/-
Objects: the shared, changeable values of a running script.

The items of a list, the entries of a dictionary and the default values of a function live in
cells of their own, which copies of the object share.
-/

import Lingo.Fault
import Lingo.Syntax.Grammar

namespace Lingo

structure ObjectId where
  index : Nat
deriving DecidableEq, Repr, Inhabited

structure ListId where
  index : Nat
deriving DecidableEq, Repr, Inhabited

structure DictId where
  index : Nat
deriving DecidableEq, Repr, Inhabited

structure DefaultsId where
  index : Nat
deriving DecidableEq, Repr, Inhabited

structure TableId where
  index : Nat
deriving DecidableEq, Repr, Inhabited

structure Frame where
  name : String
  entered : Option Position
  table : Option TableId
deriving DecidableEq, Repr, Inhabited

/-- The activities under way, the innermost first. -/
abbrev Context := List Frame

namespace Context

def table (context : Context) : Option TableId :=
  context.head?.bind (·.table)

def trace (context : Context) : List Entry :=
  context.map fun frame => { name := frame.name, entered := frame.entered }

end Context

structure Closure where
  name : String
  body : Script
  parameters : List String
  optional : List String
  defaults : DefaultsId
  yields : Bool
deriving Inhabited

inductive Payload where
  | number (value : Scalar)
  | text (value : String)
  | list (items : ListId)
  | dict (entries : DictId)
  | function (closure : Closure)
  | builtin (name : String)
  | plain
  | bodiless (name : String)

instance : Inhabited Payload := ⟨.plain⟩

structure Object where
  payload : Payload
  start : Option Position := none
  stop : Option Position := none
  context : Option Context := none
deriving Inhabited

/-- What a place in a list, a dictionary or a list of defaults holds: an object, a bare
scalar, or nothing. -/
inductive Slot where
  | object (id : ObjectId)
  | bare (value : Scalar)
  | nothing
deriving Repr, Inhabited

/-- A symbol table: names in the order in which they were first set.  A name may be set to
nothing; it is then looked for further out. -/
structure Table where
  parent : Option TableId := none
  name : Option String := none
  symbols : List (String × Option ObjectId) := []
deriving DecidableEq, Repr, Inhabited

namespace Table

def own? (table : Table) (name : String) : Option (Option ObjectId) :=
  table.symbols.lookup name

def insert (name : String) (value : Option ObjectId) :
    List (String × Option ObjectId) → List (String × Option ObjectId)
  | [] => [(name, value)]
  | (known, old) :: rest =>
      if known = name then (known, value) :: rest else (known, old) :: insert name value rest

def set (table : Table) (name : String) (value : Option ObjectId) : Table :=
  { table with symbols := insert name value table.symbols }

def remove (table : Table) (name : String) : Table :=
  { table with symbols := table.symbols.filter (·.1 ≠ name) }

end Table

end Lingo
