/-
What activities leave alone.

A footprint says which changes of the machine are allowed.  A sequence stays within a
footprint if its parts do.  The functions of the language change values, input and output
only: symbol tables and the defaults of functions stay as they are.
-/

import Lingo.Proofs.Eval.Running

namespace Lingo

/-- Changes of the machine that may follow one another. -/
structure Footprint where
  touches : Machine → Machine → Prop
  refl : ∀ machine, touches machine machine
  trans : ∀ {before middle after}, touches before middle → touches middle after →
    touches before after

def Footprint.still : Footprint where
  touches before after := before = after
  refl _ := rfl
  trans := Eq.trans

namespace Activity

variable {α β : Type} {footprint : Footprint}

def Within (footprint : Footprint) (activity : Activity α) : Prop :=
  ∀ before, footprint.touches before (activity.run.run before).2

theorem within_pure (a : α) : (pure a : Activity α).Within footprint :=
  fun before => footprint.refl before

theorem within_crash (cause : Crash) : (crash cause : Activity α).Within footprint :=
  fun before => footprint.refl before

theorem Within.bind {first : Activity α} {next : α → Activity β} (starts : first.Within footprint)
    (goesOn : ∀ a, (next a).Within footprint) : (first >>= next).Within footprint := by
  intro before
  rw [ExceptT.run_bind, StateT.run_bind]
  have touched := starts before
  cases ended : first.run.run before with
  | mk outcome middle =>
      rw [ended] at touched
      cases outcome with
      | error cause => exact touched
      | ok a => exact footprint.trans touched (goesOn a middle)

theorem Within.unchanged {activity : Activity α} (still : activity.Within .still)
    {outcome : Except Crash α} {before after : Machine}
    (ran : activity.run.run before = (outcome, after)) : before = after :=
  (still before).trans (congrArg Prod.snd ran)

theorem within_get : (get : Activity Machine).Within footprint :=
  fun before => footprint.refl before

theorem within_store : store.Within footprint :=
  fun before => footprint.refl before

theorem within_object (id : ObjectId) : (object id).Within footprint :=
  fun before => footprint.refl before

theorem within_settle (result : Except Crash α) :
    (settle result : Activity α).Within footprint := by
  cases result with
  | ok a => exact within_pure a
  | error cause => exact within_crash cause

theorem within_part (part? : Option α) : (part part? : Activity α).Within footprint := by
  cases part? with
  | some a => exact within_pure a
  | none => exact within_crash .missingPart

theorem within_scalar (id : ObjectId) : (scalar id).Within footprint :=
  within_store.bind fun _ => within_part _

theorem within_objectAt (slot : Slot) : (objectAt slot).Within footprint := by
  cases slot with
  | object id => exact within_pure id
  | bare value => exact within_crash .missingPart
  | nothing => exact within_crash .missingPart

theorem within_tableOf (context : Context) : (tableOf context).Within footprint :=
  within_part _

theorem within_lookup (context : Context) (name : String) :
    (lookup context name).Within footprint :=
  (within_tableOf context).bind fun _ => within_store.bind fun _ => within_pure _

theorem within_module? (name : String) : (module? name).Within footprint :=
  within_get.bind fun _ => within_pure _

end Activity

namespace Eval

variable {α β : Type} {footprint : Footprint}

def Within (footprint : Footprint) (evaluation : Eval α) : Prop :=
  Activity.Within footprint evaluation.run

theorem Within.lift {activity : Activity α} (within : activity.Within footprint) :
    Within footprint (liftM activity) :=
  Activity.Within.bind within fun _ => Activity.within_pure _

theorem within_pure (a : α) : Within footprint (pure a : Eval α) :=
  Activity.within_pure _

theorem within_throw (interrupt : Interrupt) : Within footprint (throw interrupt : Eval α) :=
  Activity.within_pure _

theorem within_fail (fault : Fault) : Within footprint (fail fault : Eval α) :=
  within_throw _

theorem within_ofFault (result : Except Fault α) : Within footprint (ofFault result) := by
  cases result with
  | ok a => exact within_pure a
  | error fault => exact within_fail fault

theorem Within.bind {first : Eval α} {next : α → Eval β} (starts : first.Within footprint)
    (goesOn : ∀ a, (next a).Within footprint) : (first >>= next).Within footprint := by
  unfold Within
  rw [ExceptT.run_bind]
  apply Activity.Within.bind starts
  intro outcome
  cases outcome with
  | ok a => exact goesOn a
  | error interrupt => exact Activity.within_pure _

theorem Within.after {activity : Activity α} {next : α → Eval β}
    (starts : activity.Within footprint) (goesOn : ∀ a, (next a).Within footprint) :
    Within footprint (liftM activity >>= next) :=
  (Within.lift starts).bind goesOn

theorem within_settle (result : Except Crash α) : Within footprint (Activity.settle result) :=
  Within.lift (Activity.within_settle result)

theorem within_crash (cause : Crash) :
    Within footprint (liftM (Activity.crash cause : Activity α)) :=
  Within.lift (Activity.within_crash cause)

end Eval

/-! ### Values -/

def Footprint.values : Footprint where
  touches before after :=
    after.store.tables = before.store.tables ∧ after.store.defaults = before.store.defaults
  refl _ := ⟨rfl, rfl⟩
  trans first second := ⟨second.1.trans first.1, second.2.trans first.2⟩

namespace Activity

theorem within_addObject (object : Object) : (addObject object).Within .values :=
  fun _ => ⟨rfl, rfl⟩

theorem within_addList (items : Array Slot) : (addList items).Within .values :=
  fun _ => ⟨rfl, rfl⟩

theorem within_addDict (entries : Array (ObjectId × Slot)) : (addDict entries).Within .values :=
  fun _ => ⟨rfl, rfl⟩

theorem within_setPlace (id : ObjectId) (span : Span) : (setPlace id span).Within .values :=
  fun _ => ⟨rfl, rfl⟩

theorem within_setContext (id : ObjectId) (context : Context) :
    (setContext id context).Within .values :=
  fun _ => ⟨rfl, rfl⟩

theorem within_makeBare (payload : Payload) : (makeBare payload).Within .values :=
  within_addObject _

theorem within_make (payload : Payload) (span : Span) (context : Context) :
    (make payload span context).Within .values :=
  within_addObject _

theorem within_copy (id : ObjectId) : (copy id).Within .values := by
  apply (within_object id).bind
  intro subject
  cases subject.payload with
  | plain => exact within_crash _
  | bodiless name => exact within_crash _
  | _ => exact within_addObject subject

theorem within_setEntry (id : DictId) (text : String) (key : ObjectId) (value : Slot) :
    (changeStore (·.setEntry id text key value)).Within .values := by
  intro before
  change (before.store.setEntry id text key value).tables = _ ∧
    (before.store.setEntry id text key value).defaults = _
  unfold Store.setEntry
  split
  · exact ⟨rfl, rfl⟩
  · exact ⟨rfl, rfl⟩

theorem within_print (line : String) : (print line).Within .values :=
  fun _ => ⟨rfl, rfl⟩

theorem within_readLine : readLine.Within .values := by
  apply within_get.bind
  intro machine
  cases machine.input with
  | nil => exact within_crash _
  | cons line rest => exact fun _ => ⟨rfl, rfl⟩

end Activity

def Payload.isCallable : Payload → Bool
  | .function _ => true
  | .builtin _ => true
  | _ => false

/-- What the functions of the language do to the machine is within a footprint. -/
structure Footprint.Allows (footprint : Footprint) : Prop where
  makeBare : ∀ payload : Payload, payload.isCallable = false →
    (Activity.makeBare payload).Within footprint
  addList : ∀ items, (Activity.addList items).Within footprint
  modifyItems : ∀ id change, (Activity.changeStore (·.modifyItems id change)).Within footprint
  setEntry : ∀ id text key value,
    (Activity.changeStore (·.setEntry id text key value)).Within footprint
  reckon : ∀ id value, (Activity.changeStore (·.modifyObject id fun object =>
    { object with payload := .number value })).Within footprint
  print : ∀ line, (Activity.print line).Within footprint
  readLine : Activity.readLine.Within footprint

theorem Footprint.Allows.values : Footprint.values.Allows where
  makeBare payload _ := Activity.within_makeBare payload
  addList := Activity.within_addList
  modifyItems _ _ _ := ⟨rfl, rfl⟩
  setEntry := Activity.within_setEntry
  reckon _ _ _ := ⟨rfl, rfl⟩
  print := Activity.within_print
  readLine := Activity.within_readLine

/-! ### The functions of the language -/

namespace Invocation

open Eval

variable (call : Invocation) {footprint : Footprint}

theorem within_fail {α : Type} (complaint : Complaint) :
    Within footprint (call.fail complaint : Eval α) :=
  Eval.within_fail _

theorem within_payload (id : ObjectId) : Within footprint (payload id) :=
  Within.after (Activity.within_object id) fun _ => within_pure _

theorem within_text (ordinal : Option Nat) (id : ObjectId) :
    Within footprint (call.text ordinal id) := by
  apply (within_payload id).bind
  intro payload
  cases payload with
  | text value => exact within_pure value
  | _ => exact call.within_fail _

end Invocation

/-! ### Scopes -/

namespace Store

/-- There are more tables and more lists of defaults, and no old defaults changed. -/
structure Grows (before after : Store) : Prop where
  tables : before.tables.size ≤ after.tables.size
  defaults : before.defaults.size ≤ after.defaults.size
  keepsDefaults : ∀ id : DefaultsId, id.index < before.defaults.size →
    after.defaultValues id = before.defaultValues id

/-- There are more tables, and no old one changed except perhaps one. -/
structure Shields (own : Option TableId) (before after : Store) : Prop where
  tables : before.tables.size ≤ after.tables.size
  keepsTables : ∀ id : TableId, id.index < before.tables.size → own ≠ some id →
    after.table id = before.table id

structure Keeps (own : Option TableId) (before after : Store) : Prop extends
    Grows before after, Shields own before after

theorem Grows.refl (store : Store) : store.Grows store :=
  ⟨Nat.le_refl _, Nat.le_refl _, fun _ _ => rfl⟩

theorem Grows.trans {before middle after : Store} (first : before.Grows middle)
    (second : middle.Grows after) : before.Grows after := by
  constructor
  · exact Nat.le_trans first.tables second.tables
  · exact Nat.le_trans first.defaults second.defaults
  · intro id old
    rw [second.keepsDefaults id (Nat.lt_of_lt_of_le old first.defaults),
      first.keepsDefaults id old]

theorem Shields.refl (own : Option TableId) (store : Store) : store.Shields own store :=
  ⟨Nat.le_refl _, fun _ _ _ => rfl⟩

theorem Shields.trans {own : Option TableId} {before middle after : Store}
    (first : before.Shields own middle) (second : middle.Shields own after) :
    before.Shields own after := by
  constructor
  · exact Nat.le_trans first.tables second.tables
  · intro id old other
    rw [second.keepsTables id (Nat.lt_of_lt_of_le old first.tables) other,
      first.keepsTables id old other]

theorem Keeps.refl (own : Option TableId) (store : Store) : store.Keeps own store :=
  ⟨.refl store, fun _ _ _ => rfl⟩

theorem Keeps.trans {own : Option TableId} {before middle after : Store}
    (first : before.Keeps own middle) (second : middle.Keeps own after) :
    before.Keeps own after :=
  ⟨first.toGrows.trans second.toGrows, (first.toShields.trans second.toShields).keepsTables⟩

end Store

namespace Footprint

/-- Old defaults stay, and tables may change in any way. -/
def growth : Footprint where
  touches before after := before.store.Grows after.store
  refl machine := .refl machine.store
  trans := .trans

/-- Of the old tables at most one changes, and old defaults stay. -/
def scope (own : Option TableId) : Footprint where
  touches before after := before.store.Keeps own after.store
  refl machine := .refl own machine.store
  trans := .trans

end Footprint

namespace Activity

variable {α : Type} {own : Option TableId} {activity : Activity α}

theorem Within.mono {narrow wide : Footprint} (within : activity.Within narrow)
    (included : ∀ before after, narrow.touches before after → wide.touches before after) :
    activity.Within wide :=
  fun before => included _ _ (within before)

theorem Within.scope (within : activity.Within .values) : activity.Within (.scope own) := by
  apply within.mono
  intro before after ⟨sameTables, sameDefaults⟩
  constructor
  · constructor
    · exact Nat.le_of_eq (congrArg Heap.size sameTables.symm)
    · exact Nat.le_of_eq (congrArg Heap.size sameDefaults.symm)
    · intro id old
      unfold Store.defaultValues
      rw [sameDefaults]
  · intro id old other
    unfold Store.table
    rw [sameTables]

theorem Within.growth (within : activity.Within (.scope own)) : activity.Within .growth :=
  within.mono fun _ _ keeps => keeps.toGrows

theorem within_addDefaults (values : Array Slot) : (addDefaults values).Within (.scope own) := by
  intro before
  have grown : (before.store.addDefaults values).2.defaults.size =
      before.store.defaults.size + 1 := before.store.defaults.size_push values
  constructor
  · constructor
    · exact Nat.le_refl _
    · exact Nat.le_of_lt (Nat.lt_of_lt_of_eq (Nat.lt_succ_self _) grown.symm)
    · intro id old
      exact before.store.defaults.read_push_old values old
  · intro id old other
    rfl

theorem within_addTable (table : Table) : (addTable table).Within (.scope own) := by
  intro before
  have grown : (before.store.addTable table).2.tables.size = before.store.tables.size + 1 :=
    before.store.tables.size_push table
  constructor
  · constructor
    · exact Nat.le_of_lt (Nat.lt_of_lt_of_eq (Nat.lt_succ_self _) grown.symm)
    · exact Nat.le_refl _
    · intro id old
      rfl
  · intro id old other
    exact before.store.tables.read_push_old table old

theorem within_assign (context : Context) (name : String) (value : ObjectId) :
    (assign context name value).Within (.scope context.table) := by
  unfold assign tableOf
  cases found : context.table with
  | none => exact within_crash .missingPart
  | some table =>
      intro before
      constructor
      · constructor
        · exact Nat.le_of_eq (before.store.tables.size_modify _ _).symm
        · exact Nat.le_refl _
        · intro id old
          rfl
      · intro id old other
        have different : table.index ≠ id.index := by
          intro same
          apply other
          cases table
          cases id
          cases same
          rfl
        exact before.store.tables.read_modify_away _ different

theorem within_bindAll (context : Context) (bindings : List (String × Slot)) :
    (Evaluator.bindAll context bindings).Within (.scope context.table) := by
  induction bindings with
  | nil => exact within_pure ()
  | cons binding rest ih =>
      exact (within_objectAt binding.2).bind fun id =>
        (within_setContext id context).scope.bind fun _ =>
          (within_assign context binding.1 id).bind fun _ => ih

end Activity

namespace Eval

variable {α : Type} {own : Option TableId}

theorem Within.scope {evaluation : Eval α} (within : evaluation.Within .values) :
    evaluation.Within (.scope own) :=
  Activity.Within.scope within

theorem Within.growth {evaluation : Eval α} (within : evaluation.Within (.scope own)) :
    evaluation.Within .growth :=
  Activity.Within.growth within

end Eval

end Lingo
