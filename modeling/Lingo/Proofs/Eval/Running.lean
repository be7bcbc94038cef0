/-
How activities run on a machine.

An activity ends with a result if it does not crash; an evaluation ends with a value or
with an interruption.  A sequence ends as its parts do.  Stores grow: new cells are put
behind the old ones, which a fresh cell can be changed without touching.
-/

import Lingo.Eval.Evaluator

namespace Lingo

namespace Activity

variable {α β : Type} {first : Activity α}

/-- From one machine to another, an activity ends with a result. -/
def Ends (activity : Activity α) (before : Machine) (result : α) (after : Machine) : Prop :=
  activity.run.run before = (.ok result, after)

theorem run_bind_ended {before middle : Machine} {a : α} (ends : first.Ends before a middle)
    (next : α → Activity β) : (first >>= next).run.run before = (next a).run.run middle := by
  unfold Ends at ends
  rw [ExceptT.run_bind, StateT.run_bind, ends]
  rfl

theorem run_bind_cases {next : α → Activity β} {before after : Machine} {outcome : Except Crash β}
    (ran : (first >>= next).run.run before = (outcome, after)) :
    (∃ cause, first.run.run before = (.error cause, after) ∧ outcome = .error cause) ∨
      ∃ a middle, first.Ends before a middle ∧ (next a).run.run middle = (outcome, after) := by
  cases starts : first.run.run before with
  | mk result middle =>
      cases result with
      | error cause =>
          rw [ExceptT.run_bind, StateT.run_bind, starts] at ran
          cases ran
          exact .inl ⟨cause, rfl, rfl⟩
      | ok a => exact .inr ⟨a, middle, starts, (run_bind_ended starts next).symm.trans ran⟩

theorem Ends.bind {next : α → Activity β} {before middle after : Machine} {a : α} {b : β}
    (starts : first.Ends before a middle) (goesOn : (next a).Ends middle b after) :
    (first >>= next).Ends before b after :=
  (run_bind_ended starts next).trans goesOn

theorem ends_pure (a : α) (machine : Machine) : (pure a : Activity α).Ends machine a machine :=
  rfl

theorem ends_get (machine : Machine) : (get : Activity Machine).Ends machine machine machine :=
  rfl

theorem ends_settle {result : Except Crash α} {a : α} (succeeds : result = .ok a)
    (machine : Machine) : (settle result : Activity α).Ends machine a machine := by
  rw [succeeds]
  rfl

theorem ends_store (machine : Machine) : store.Ends machine machine.store machine :=
  rfl

theorem ends_object (id : ObjectId) (machine : Machine) :
    (object id).Ends machine (machine.store.object id) machine :=
  rfl

theorem ends_addObject (object : Object) (machine : Machine) :
    (addObject object).Ends machine ⟨machine.store.objects.size⟩
      { machine with store := (machine.store.addObject object).2 } :=
  rfl

theorem ends_addList (items : Array Slot) (machine : Machine) :
    (addList items).Ends machine ⟨machine.store.lists.size⟩
      { machine with store := (machine.store.addList items).2 } :=
  rfl

end Activity

namespace Eval

variable {α β : Type}

/-- From one machine to another, an evaluation ends with a value or an interruption. -/
def Ends (evaluation : Eval α) (before : Machine) (result : Except Interrupt α)
    (after : Machine) : Prop :=
  Activity.Ends evaluation.run before result after

variable {first : Eval α} {next : α → Eval β} {before middle after : Machine}

theorem Ends.bind {a : α} {result : Except Interrupt β} (starts : first.Ends before (.ok a) middle)
    (goesOn : (next a).Ends middle result after) : (first >>= next).Ends before result after := by
  unfold Ends at starts goesOn ⊢
  rw [ExceptT.run_bind]
  exact starts.bind goesOn

theorem Ends.interrupted {interrupt : Interrupt}
    (stops : first.Ends before (.error interrupt) after) :
    (first >>= next).Ends before (.error interrupt) after := by
  unfold Ends at stops ⊢
  rw [ExceptT.run_bind]
  exact stops.bind rfl

theorem Ends.lift {activity : Activity α} {a : α} (ends : activity.Ends before a after) :
    Ends (liftM activity) before (.ok a) after :=
  ends.bind rfl

theorem ends_settle {result : Except Crash α} {a : α} (succeeds : result = .ok a)
    (machine : Machine) : Ends (Activity.settle result) machine (.ok a) machine :=
  Ends.lift (Activity.ends_settle succeeds machine)

end Eval

/-! ### Stores that grow -/

namespace Heap

variable {α : Type}

@[simp] theorem size_modify (heap : Heap α) (address : Nat) (change : α → α) :
    (heap.modify address change).size = heap.size := by
  simp [modify, size]

theorem read_modify_same [Inhabited α] (heap : Heap α) {address : Nat} (change : α → α)
    (inside : address < heap.size) :
    (heap.modify address change).read address = change (heap.read address) := by
  simp only [size] at inside
  simp [modify, read, Array.getElem_modify, inside]

theorem read_modify_away [Inhabited α] (heap : Heap α) {address other : Nat} (change : α → α)
    (different : address ≠ other) :
    (heap.modify address change).read other = heap.read other := by
  simp [modify, read, Array.getElem?_modify, different]

end Heap

namespace Store

/-- The objects, lists and dictionaries of one store are also in another, unchanged. -/
structure Extends (before after : Store) : Prop where
  grows : before.objects.size ≤ after.objects.size
  keeps : ∀ id : ObjectId, id.index < before.objects.size → after.object id = before.object id
  lists : before.lists.size ≤ after.lists.size
  keepsLists : ∀ id : ListId, id.index < before.lists.size → after.items id = before.items id
  dicts : before.dicts.size ≤ after.dicts.size
  keepsDicts : ∀ id : DictId, id.index < before.dicts.size → after.entries id = before.entries id

theorem Extends.refl (store : Store) : store.Extends store :=
  ⟨Nat.le_refl _, fun _ _ => rfl, Nat.le_refl _, fun _ _ => rfl, Nat.le_refl _, fun _ _ => rfl⟩

theorem Extends.trans {before middle after : Store} (first : before.Extends middle)
    (second : middle.Extends after) : before.Extends after where
  grows := Nat.le_trans first.grows second.grows
  keeps id old := by
    rw [second.keeps id (Nat.lt_of_lt_of_le old first.grows), first.keeps id old]
  lists := Nat.le_trans first.lists second.lists
  keepsLists id old := by
    rw [second.keepsLists id (Nat.lt_of_lt_of_le old first.lists), first.keepsLists id old]
  dicts := Nat.le_trans first.dicts second.dicts
  keepsDicts id old := by
    rw [second.keepsDicts id (Nat.lt_of_lt_of_le old first.dicts), first.keepsDicts id old]

@[simp] theorem size_addObject (store : Store) (object : Object) :
    (store.addObject object).2.objects.size = store.objects.size + 1 :=
  store.objects.size_push object

theorem extends_addObject (store : Store) (object : Object) :
    store.Extends (store.addObject object).2 :=
  { Extends.refl store with
    grows := Nat.le_of_lt (store.objects.lt_size_push object)
    keeps := fun _ old => store.objects.read_push_old object old }

theorem extends_addList (store : Store) (items : Array Slot) :
    store.Extends (store.addList items).2 :=
  { Extends.refl store with
    lists := Nat.le_of_lt (store.lists.lt_size_push items)
    keepsLists := fun _ old => store.lists.read_push_old items old }

theorem extends_addDict (store : Store) (entries : Array (ObjectId × Slot)) :
    store.Extends (store.addDict entries).2 :=
  { Extends.refl store with
    dicts := Nat.le_of_lt (store.dicts.lt_size_push entries)
    keepsDicts := fun _ old => store.dicts.read_push_old entries old }

@[simp] theorem object_addObject (store : Store) (object : Object) :
    (store.addObject object).2.object ⟨store.objects.size⟩ = object :=
  store.objects.read_push_new object

@[simp] theorem size_modifyObject (store : Store) (id : ObjectId) (change : Object → Object) :
    (store.modifyObject id change).objects.size = store.objects.size := by
  simp [modifyObject]

theorem Extends.modifyObject {before after : Store} (extension : before.Extends after)
    {id : ObjectId} (fresh : before.objects.size ≤ id.index) (change : Object → Object) :
    before.Extends (after.modifyObject id change) :=
  { extension with
    grows := by
      rw [size_modifyObject]
      exact extension.grows
    keeps := by
      intro other old
      have different : id.index ≠ other.index := by omega
      rw [← extension.keeps other old]
      exact after.objects.read_modify_away change different }

theorem object_modifyObject (store : Store) {id : ObjectId} (change : Object → Object)
    (inside : id.index < store.objects.size) :
    (store.modifyObject id change).object id = change (store.object id) :=
  store.objects.read_modify_same change inside

structure Enlarges (before after : Store) : Prop where
  extension : before.Extends after
  rest : after = { before with objects := after.objects }

theorem Enlarges.refl (store : Store) : store.Enlarges store :=
  ⟨.refl store, rfl⟩

theorem Enlarges.trans {before middle after : Store} (first : before.Enlarges middle)
    (second : middle.Enlarges after) : before.Enlarges after where
  extension := first.extension.trans second.extension
  rest := second.rest.trans
    (congrArg (fun store : Store => { store with objects := after.objects }) first.rest)

theorem enlarges_addObject (store : Store) (object : Object) :
    store.Enlarges (store.addObject object).2 :=
  ⟨store.extends_addObject object, rfl⟩

theorem Enlarges.modifyObject {before after : Store} (enlarges : before.Enlarges after)
    {id : ObjectId} (fresh : before.objects.size ≤ id.index) (change : Object → Object) :
    before.Enlarges (after.modifyObject id change) where
  extension := enlarges.extension.modifyObject fresh change
  rest := congrArg (·.modifyObject id change) enlarges.rest

/-! ### Lists -/

def withList (store : Store) (items : Array Slot) (span : Span) (context : Context) : Store :=
  ((store.addList items).2.addObject
    { payload := .list ⟨store.lists.size⟩, start := some span.start, stop := some span.stop,
      context := some context }).2

variable (store : Store) (items : Array Slot) (span : Span) (context : Context)

theorem payload_withList :
    ((store.withList items span context).object ⟨store.objects.size⟩).payload =
      .list ⟨store.lists.size⟩ :=
  congrArg Object.payload ((store.addList items).2.object_addObject _)

theorem items_withList :
    (store.withList items span context).items ⟨store.lists.size⟩ = items :=
  store.lists.read_push_new items

theorem extends_withList : store.Extends (store.withList items span context) :=
  (store.extends_addList items).trans ((store.addList items).2.extends_addObject _)

end Store

theorem Evaluator.ends_listValue {self : Evaluator} {items : List Script} {context : Context}
    {before middle : Machine} {ids : List ObjectId}
    (collected : (items.mapM fun item => self item context).Ends before (.ok ids) middle)
    (span : Span) :
    (listValue self span items context).Ends before (.ok ⟨middle.store.objects.size⟩)
      { middle with store := middle.store.withList (ids.map .object).toArray span context } := by
  apply Eval.Ends.bind collected
  apply Eval.Ends.bind (Eval.Ends.lift (Activity.ends_addList _ middle))
  exact Eval.Ends.lift (Activity.ends_addObject _ _)

/-! ### Whole texts -/

namespace Evaluator

def outermost (machine : Machine) : Context :=
  [{ name := "<program>", entered := none, table := some machine.globals }]

def concluded : Except Interrupt ObjectId → Except Fault (Option ObjectId)
  | .ok id => .ok (some id)
  | .error (.failed fault) => .error fault
  | .error _ => .ok none

theorem ends_runSource {source : Source} {tokens : List Placed} {tree : Script} {stop : Reading}
    (lexed : Lexer.read source = .tokens tokens)
    (parsed : Grammar.run Grammar.script tokens = .ok (.success tree, stop)) {self : Evaluator}
    {before after : Machine} {result : Except Interrupt ObjectId}
    (ends : (self tree (outermost before)).Ends before result after) :
    (runSource self source "").Ends before (concluded result) after := by
  unfold runSource
  rw [lexed]
  apply Activity.Ends.bind (Activity.ends_settle parsed before)
  dsimp only
  rw [if_pos rfl]
  apply Activity.Ends.bind (Activity.ends_get before)
  apply Activity.Ends.bind (Activity.ends_pure _ before)
  apply Activity.Ends.bind ends
  cases result with
  | ok id => rfl
  | error interrupt => cases interrupt <;> rfl

end Evaluator

end Lingo
