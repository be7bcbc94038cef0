/-
The store of a running script: one heap for each kind of cell.
-/

import Lingo.Store.Heap
import Lingo.Store.Object

namespace Lingo

structure Store where
  objects : Heap Object := .empty
  lists : Heap (Array Slot) := .empty
  dicts : Heap (Array (ObjectId × Slot)) := .empty
  defaults : Heap (Array Slot) := .empty
  tables : Heap Table := .empty
deriving Inhabited

namespace Store

def object (store : Store) (id : ObjectId) : Object :=
  store.objects.read id.index

def items (store : Store) (id : ListId) : Array Slot :=
  store.lists.read id.index

def entries (store : Store) (id : DictId) : Array (ObjectId × Slot) :=
  store.dicts.read id.index

def defaultValues (store : Store) (id : DefaultsId) : Array Slot :=
  store.defaults.read id.index

def table (store : Store) (id : TableId) : Table :=
  store.tables.read id.index

def scalar? (store : Store) (id : ObjectId) : Option Scalar :=
  match (store.object id).payload with
  | .number value => some value
  | .text value => some (.text value)
  | _ => none

def text? (store : Store) (id : ObjectId) : Option String :=
  match (store.object id).payload with
  | .text value => some value
  | _ => none

/-- Looks a name up in a table and then in its parents; `fuel` bounds the number of tables.
An entry without a value counts as none. -/
def lookupFrom (store : Store) (name : String) : Nat → TableId → Option ObjectId
  | 0, _ => none
  | fuel + 1, id =>
      let table := store.table id
      match table.own? name with
      | some (some value) => some value
      | _ =>
          match table.parent with
          | some parent => lookupFrom store name fuel parent
          | none => none

/-- The value of a name as seen from a table.  A parent is older than its children, so the
address of the table bounds the search. -/
def lookup (store : Store) (id : TableId) (name : String) : Option ObjectId :=
  store.lookupFrom name (id.index + 1) id

def setSymbol (store : Store) (id : TableId) (name : String) (value : Option ObjectId) : Store :=
  { store with tables := store.tables.modify id.index (·.set name value) }

def removeSymbol (store : Store) (id : TableId) (name : String) : Except Crash Store :=
  match (store.table id).own? name with
  | some _ => .ok { store with tables := store.tables.modify id.index (·.remove name) }
  | none => .error .missingKey

def addObject (store : Store) (object : Object) : ObjectId × Store :=
  (⟨store.objects.size⟩, { store with objects := store.objects.push object })

def addList (store : Store) (items : Array Slot) : ListId × Store :=
  (⟨store.lists.size⟩, { store with lists := store.lists.push items })

def addDict (store : Store) (entries : Array (ObjectId × Slot)) : DictId × Store :=
  (⟨store.dicts.size⟩, { store with dicts := store.dicts.push entries })

def addDefaults (store : Store) (values : Array Slot) : DefaultsId × Store :=
  (⟨store.defaults.size⟩, { store with defaults := store.defaults.push values })

def addTable (store : Store) (table : Table) : TableId × Store :=
  (⟨store.tables.size⟩, { store with tables := store.tables.push table })

def modifyObject (store : Store) (id : ObjectId) (change : Object → Object) : Store :=
  { store with objects := store.objects.modify id.index change }

def modifyItems (store : Store) (id : ListId) (change : Array Slot → Array Slot) : Store :=
  { store with lists := store.lists.modify id.index change }

def modifyEntries (store : Store) (id : DictId)
    (change : Array (ObjectId × Slot) → Array (ObjectId × Slot)) : Store :=
  { store with dicts := store.dicts.modify id.index change }

def modifyDefaults (store : Store) (id : DefaultsId) (change : Array Slot → Array Slot) : Store :=
  { store with defaults := store.defaults.modify id.index change }

def keyPlace? (store : Store) (id : DictId) (key : String) : Option Nat :=
  (store.entries id).findIdx? fun entry => store.text? entry.1 == some key

/-- Gives a key a value: an entry with the same text keeps its key and its place, otherwise
the key is added at the end. -/
def setEntry (store : Store) (id : DictId) (keyText : String) (key : ObjectId) (value : Slot) :
    Store :=
  match store.keyPlace? id keyText with
  | some place =>
      store.modifyEntries id fun entries =>
        entries.modify place fun entry => (entry.1, value)
  | none => store.modifyEntries id (·.push (key, value))

end Store

end Lingo
