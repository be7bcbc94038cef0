/-
The machine that runs scripts, and its activities.

What an activity changed before a crash stays changed.  Evaluation may in addition be
interrupted: by a fault, or because a return, continue or break is on its way outward.
-/

import Lingo.Folder
import Lingo.Value.Operation

namespace Lingo

structure Machine where
  store : Store
  globals : TableId
  modules : List TableId := []
  output : String := ""
  input : List String := []
  folder : Folder := {}
deriving Inhabited

abbrev Activity := ExceptT Crash (StateM Machine)

inductive Interrupt where
  | failed (fault : Fault)
  | returned (value : ObjectId)
  | skipped
  | left
deriving DecidableEq, Repr, Inhabited

abbrev Eval := ExceptT Interrupt Activity

namespace Activity

variable {α : Type}

def crash (cause : Crash) : Activity α :=
  throw cause

variable {m : Type → Type} [MonadLiftT Activity m]

def settle (result : Except Crash α) : m α :=
  liftM (match result with
    | .ok a => pure a
    | .error cause => crash cause : Activity α)

def part (part : Option α) : m α :=
  liftM (match part with
    | some a => pure a
    | none => crash .missingPart : Activity α)

def store : Activity Store := do
  return (← get).store

def changeStore (change : Store → Store) : Activity Unit :=
  modify fun machine => { machine with store := change machine.store }

def object (id : ObjectId) : Activity Object := do
  return (← store).object id

def addObject (object : Object) : Activity ObjectId :=
  modifyGet fun machine =>
    let (id, store) := machine.store.addObject object
    (id, { machine with store })

def addList (items : Array Slot) : Activity ListId :=
  modifyGet fun machine =>
    let (id, store) := machine.store.addList items
    (id, { machine with store })

def addDict (entries : Array (ObjectId × Slot)) : Activity DictId :=
  modifyGet fun machine =>
    let (id, store) := machine.store.addDict entries
    (id, { machine with store })

def addDefaults (values : Array Slot) : Activity DefaultsId :=
  modifyGet fun machine =>
    let (id, store) := machine.store.addDefaults values
    (id, { machine with store })

def addTable (table : Table) : Activity TableId :=
  modifyGet fun machine =>
    let (id, store) := machine.store.addTable table
    (id, { machine with store })

def setPlace (id : ObjectId) (span : Span) : Activity Unit :=
  changeStore (·.modifyObject id fun object =>
    { object with start := some span.start, stop := some span.stop })

def setContext (id : ObjectId) (context : Context) : Activity Unit :=
  changeStore (·.modifyObject id fun object => { object with context := some context })

def make (payload : Payload) (span : Span) (context : Context) : Activity ObjectId :=
  addObject
    { payload, start := some span.start, stop := some span.stop, context := some context }

def makeBare (payload : Payload) : Activity ObjectId :=
  addObject { payload }

def makeList (items : Array Slot) : Activity ObjectId := do
  makeBare (.list (← addList items))

/-- A new object with the same payload, which shares its items, entries or defaults. -/
def copy (id : ObjectId) : Activity ObjectId := do
  let subject ← object id
  match subject.payload with
  | .plain => crash (.complaint "No copy method defined")
  | .bodiless _ => crash (.complaint "No copy method defined")
  | _ => addObject subject

def objectAt : Slot → Activity ObjectId
  | .object id => pure id
  | _ => crash .missingPart

def scalar (id : ObjectId) : Activity Scalar := do
  part ((← store).scalar? id)

def tableOf (context : Context) : Activity TableId :=
  part context.table

def assign (context : Context) (name : String) (value : ObjectId) : Activity Unit := do
  let table ← tableOf context
  changeStore (·.setSymbol table name (some value))

def lookup (context : Context) (name : String) : Activity (Option ObjectId) := do
  let table ← tableOf context
  return (← store).lookup table name

def module? (name : String) : Activity (Option TableId) := do
  let machine ← get
  return machine.modules.find? fun id => (machine.store.table id).name = some name

def write (text : String) : Activity Unit :=
  modify fun machine => { machine with output := machine.output ++ text }

def print (line : String) : Activity Unit := do
  write line
  write "\n"

def readLine : Activity String := do
  match (← get).input with
  | [] => crash .inputEnded
  | line :: rest =>
      modify fun machine => { machine with input := rest }
      return line

end Activity

namespace Eval

variable {α : Type}

def fail (fault : Fault) : Eval α :=
  throw (.failed fault)

def observe (evaluation : Eval α) : Eval (Except Interrupt α) :=
  ExceptT.lift evaluation.run

def ofFault (result : Except Fault α) : Eval α :=
  match result with
  | .ok a => pure a
  | .error fault => fail fault

end Eval

def Store.nullId : ObjectId := ⟨0⟩
def Store.falseId : ObjectId := ⟨1⟩
def Store.trueId : ObjectId := ⟨2⟩

end Lingo
