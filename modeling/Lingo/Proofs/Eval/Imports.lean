/-
Modules are loaded apart from everything else.

The table of a module has no parent and holds no names at first.  So a script that runs in it finds
nothing but what it makes itself, and no function of the language among that.  Whatever it does, all
that was there before stays as it was, as long as there is no other module to find names in.
-/

import Lingo.Proofs.Eval.Lineage
import Lingo.Proofs.Eval.Loading

namespace Lingo

/-! ### What was there before -/

/-- All cells that a machine had hold what they held, and nothing was read or printed.  The place
and the context by which an object is claimed may be others. -/
structure Machine.Untouched (before after : Machine) : Prop where
  objects : before.store.objects.size ≤ after.store.objects.size
  payloads : ∀ id : ObjectId, id.index < before.store.objects.size →
    (after.store.object id).payload = (before.store.object id).payload
  lists : before.store.lists.size ≤ after.store.lists.size
  items : ∀ id : ListId, id.index < before.store.lists.size →
    after.store.items id = before.store.items id
  dicts : before.store.dicts.size ≤ after.store.dicts.size
  entries : ∀ id : DictId, id.index < before.store.dicts.size →
    after.store.entries id = before.store.entries id
  defaults : before.store.defaults.size ≤ after.store.defaults.size
  defaultValues : ∀ id : DefaultsId, id.index < before.store.defaults.size →
    after.store.defaultValues id = before.store.defaultValues id
  tables : before.store.tables.size ≤ after.store.tables.size
  bindings : ∀ id : TableId, id.index < before.store.tables.size →
    after.store.table id = before.store.table id
  globals : after.globals = before.globals
  output : after.output = before.output
  input : after.input = before.input
  folder : after.folder = before.folder

namespace Machine.Untouched

variable {before middle after : Machine}

theorem refl (machine : Machine) : machine.Untouched machine :=
  ⟨Nat.le_refl _, fun _ _ => rfl, Nat.le_refl _, fun _ _ => rfl, Nat.le_refl _, fun _ _ => rfl,
    Nat.le_refl _, fun _ _ => rfl, Nat.le_refl _, fun _ _ => rfl, rfl, rfl, rfl, rfl⟩

theorem trans (first : before.Untouched middle) (second : middle.Untouched after) :
    before.Untouched after where
  objects := Nat.le_trans first.objects second.objects
  payloads id old :=
    (second.payloads id (Nat.lt_of_lt_of_le old first.objects)).trans (first.payloads id old)
  lists := Nat.le_trans first.lists second.lists
  items id old := (second.items id (Nat.lt_of_lt_of_le old first.lists)).trans (first.items id old)
  dicts := Nat.le_trans first.dicts second.dicts
  entries id old :=
    (second.entries id (Nat.lt_of_lt_of_le old first.dicts)).trans (first.entries id old)
  defaults := Nat.le_trans first.defaults second.defaults
  defaultValues id old :=
    (second.defaultValues id (Nat.lt_of_lt_of_le old first.defaults)).trans
      (first.defaultValues id old)
  tables := Nat.le_trans first.tables second.tables
  bindings id old :=
    (second.bindings id (Nat.lt_of_lt_of_le old first.tables)).trans (first.bindings id old)
  globals := second.globals.trans first.globals
  output := second.output.trans first.output
  input := second.input.trans first.input
  folder := second.folder.trans first.folder

theorem le_push {α : Type} {heap : Heap α} {size : Nat} (enough : size ≤ heap.size) (cell : α) :
    size ≤ (heap.push cell).size := by
  rw [Heap.size_push]
  exact Nat.le_succ_of_le enough

variable (untouched : before.Untouched after)

include untouched

theorem addObject (object : Object) :
    before.Untouched (after.withStore (after.store.addObject object).2) :=
  { untouched with
    objects := le_push untouched.objects object
    payloads := by
      intro id old
      rw [← untouched.payloads id old]
      have inside := Nat.lt_of_lt_of_le old untouched.objects
      exact congrArg Object.payload (after.store.objects.read_push_old object inside) }

theorem claim (id : ObjectId) {change : Object → Object}
    (kept : ∀ object, (change object).payload = object.payload) :
    before.Untouched (after.withStore (after.store.modifyObject id change)) :=
  { untouched with
    objects := by
      rw [Store.size_modifyObject]
      exact untouched.objects
    payloads := by
      intro other old
      rw [← untouched.payloads other old]
      exact after.store.objects.view_read_modify Object.payload id.index change kept other.index }

theorem addList (items : Array Slot) :
    before.Untouched (after.withStore (after.store.addList items).2) :=
  { untouched with
    lists := le_push untouched.lists items
    items := by
      intro id old
      rw [← untouched.items id old]
      exact after.store.lists.read_push_old items (Nat.lt_of_lt_of_le old untouched.lists) }

theorem addDict (entries : Array (ObjectId × Slot)) :
    before.Untouched (after.withStore (after.store.addDict entries).2) :=
  { untouched with
    dicts := le_push untouched.dicts entries
    entries := by
      intro id old
      rw [← untouched.entries id old]
      exact after.store.dicts.read_push_old entries (Nat.lt_of_lt_of_le old untouched.dicts) }

theorem addDefaults (values : Array Slot) :
    before.Untouched (after.withStore (after.store.addDefaults values).2) :=
  { untouched with
    defaults := le_push untouched.defaults values
    defaultValues := by
      intro id old
      rw [← untouched.defaultValues id old]
      exact after.store.defaults.read_push_old values (Nat.lt_of_lt_of_le old untouched.defaults) }

theorem modifyDefaults {id : DefaultsId} (later : before.store.defaults.size ≤ id.index)
    (change : Array Slot → Array Slot) :
    before.Untouched (after.withStore (after.store.modifyDefaults id change)) :=
  { untouched with
    defaults := Nat.le_trans untouched.defaults
      (Nat.le_of_eq (after.store.defaults.size_modify _ _).symm)
    defaultValues := by
      intro other old
      rw [← untouched.defaultValues other old]
      exact after.store.defaults.read_modify_away change (by omega) }

theorem addTable (table : Table) :
    before.Untouched (after.withStore (after.store.addTable table).2) :=
  { untouched with
    tables := le_push untouched.tables table
    bindings := by
      intro id old
      rw [← untouched.bindings id old]
      exact after.store.tables.read_push_old table (Nat.lt_of_lt_of_le old untouched.tables) }

theorem setSymbol {id : TableId} (later : before.store.tables.size ≤ id.index) (name : String)
    (value : Option ObjectId) :
    before.Untouched (after.withStore (after.store.setSymbol id name value)) :=
  { untouched with
    tables := Nat.le_trans untouched.tables (Nat.le_of_eq (after.store.tables.size_modify _ _).symm)
    bindings := by
      intro other old
      rw [← untouched.bindings other old]
      exact after.store.tables.read_modify_away _ (by omega) }

end Machine.Untouched

/-! ### What came later -/

namespace Machine

/-- The constant for no value, or an object that came later. -/
def Newer (start : Machine) (id : ObjectId) : Prop :=
  id = Store.nullId ∨ start.store.objects.size ≤ id.index

/-- What a payload refers to came later; no function of the language did. -/
def Bears (start : Machine) : Payload → Prop
  | .list id => start.store.lists.size ≤ id.index
  | .function closure => start.store.defaults.size ≤ closure.defaults.index
  | .builtin _ => False
  | _ => True

/-- A script runs in the table of a module that was added to a machine, which is the only one.  All
that came later refers only to what came later. -/
structure Secludes (start : Machine) (moduleName : String) (machine : Machine) : Prop where
  untouched : start.Untouched machine
  modules : machine.modules = [⟨start.store.tables.size⟩]
  inside : start.store.tables.size < machine.store.tables.size
  home : (machine.store.table ⟨start.store.tables.size⟩).name = some moduleName
  orphan : (machine.store.table ⟨start.store.tables.size⟩).parent = none
  payloads : ∀ id : ObjectId, start.store.objects.size ≤ id.index →
    start.Bears (machine.store.object id).payload
  contexts : ∀ (id : ObjectId) context table, start.store.objects.size ≤ id.index →
    (machine.store.object id).payload.isCallable = true →
      (machine.store.object id).context = some context → context.table = some table →
        start.store.tables.size ≤ table.index
  items : ∀ (id : ListId) value, start.store.lists.size ≤ id.index →
    .object value ∈ machine.store.items id → start.Newer value
  defaultValues : ∀ (id : DefaultsId) value, start.store.defaults.size ≤ id.index →
    .object value ∈ machine.store.defaultValues id → start.Newer value
  symbols : ∀ (id : TableId) name value, start.store.tables.size ≤ id.index →
    (machine.store.table id).own? name = some (some value) → start.Newer value
  parents : ∀ (id : TableId) parent, start.store.tables.size ≤ id.index →
    (machine.store.table id).parent = some parent → start.store.tables.size ≤ parent.index

theorem secludes_withModule {machine : Machine} (first : machine.modules = [])
    (moduleName : String) :
    machine.Secludes moduleName (Evaluator.withModule machine moduleName) := by
  have objects : ∀ id : ObjectId, machine.store.objects.size ≤ id.index →
      (Evaluator.withModule machine moduleName).store.object id = default :=
    fun _ => Heap.read_of_le
  have made : (Evaluator.withModule machine moduleName).store.table
      ⟨machine.store.tables.size⟩ = { name := some moduleName } :=
    machine.store.tables.read_push_new _
  have tables : ∀ id : TableId, machine.store.tables.size ≤ id.index →
      (Evaluator.withModule machine moduleName).store.table id = { name := some moduleName } ∨
        (Evaluator.withModule machine moduleName).store.table id = default := by
    intro id later
    rcases machine.store.tables.read_push_cases { name := some moduleName } id.index with
      same | ⟨_, new⟩
    · exact .inr (same.trans (Heap.read_of_le later))
    · exact .inl new
  constructor
  case untouched =>
    have added := (Untouched.refl machine).addTable { name := some moduleName }
    exact { added with }
  case modules => exact congrArg (· ++ [_]) first
  case inside => exact Heap.lt_size_push _ _
  case home => exact congrArg Table.name made
  case orphan => exact congrArg Table.parent made
  case payloads =>
    intro id later
    rw [objects id later]
    trivial
  case contexts =>
    intro id context table later callable
    rw [objects id later] at callable
    cases callable
  case items =>
    intro id value later among
    have none : machine.store.items id = #[] := Heap.read_of_le later
    have amongNone : Slot.object value ∈ machine.store.items id := among
    rw [none] at amongNone
    exact absurd amongNone (Array.not_mem_empty _)
  case defaultValues =>
    intro id value later among
    have none : machine.store.defaultValues id = #[] := Heap.read_of_le later
    have amongNone : Slot.object value ∈ machine.store.defaultValues id := among
    rw [none] at amongNone
    exact absurd amongNone (Array.not_mem_empty _)
  case symbols =>
    intro id name value later own
    rcases tables id later with known | known <;>
      · rw [known] at own
        cases own
  case parents =>
    intro id parent later known
    rcases tables id later with made | made <;>
      · rw [made] at known
        cases known

end Machine

/-! ### The realm of a new module -/

def Realm.newer (start : Machine) (moduleName : String) : Realm where
  knows _ := start.Newer
  owns := start.Bears
  reaches _ table := start.store.tables.size ≤ table.index
  holds := start.Secludes moduleName

namespace Realm

variable {start machine : Machine} {moduleName : String}

theorem keeps_newer {later : Machine} (secludes : start.Secludes moduleName later) :
    (newer start moduleName).Keeps machine later where
  holds := secludes
  knows _ known := known
  reaches _ reached := reached

section

variable (secludes : start.Secludes moduleName machine)

include secludes

theorem newer_of_lookup {table : TableId} (later : start.store.tables.size ≤ table.index)
    {name : String} {id : ObjectId} (found : machine.store.lookup table name = some id) :
    start.Newer id := by
  obtain ⟨home, sees, own⟩ := Store.exists_sees_of_lookupFrom found
  clear found
  induction sees with
  | here => exact secludes.symbols home name id later own
  | outward _ outer _ ih => exact ih (secludes.parents _ _ later outer)

theorem secludes_addObject {object : Object} (fits : (newer start moduleName).Fits machine object) :
    start.Secludes moduleName (machine.withStore (machine.store.addObject object).2) :=
  { secludes with
    untouched := secludes.untouched.addObject object
    payloads := fun id =>
      Heap.forall_read_push
        (fun place (cell : Object) => start.store.objects.size ≤ place → start.Bears cell.payload)
        (fun address => secludes.payloads ⟨address⟩) (fun _ => fits.owns) id.index
    contexts := fun id context table later =>
      Heap.forall_read_push
        (fun place (cell : Object) => start.store.objects.size ≤ place →
          cell.payload.isCallable = true → cell.context = some context →
            context.table = some table → start.store.tables.size ≤ table.index)
        (fun address => secludes.contexts ⟨address⟩ context table)
        (fun _ callable claimed => fits.reaches callable context claimed table) id.index later }

theorem secludes_claim {id : ObjectId} {change : Object → Object}
    (kept : ∀ object, (change object).payload = object.payload)
    (fits : (newer start moduleName).Fits machine (change (machine.store.object id))) :
    start.Secludes moduleName (machine.withStore (machine.store.modifyObject id change)) :=
  { secludes with
    untouched := secludes.untouched.claim id kept
    payloads := by
      intro other later
      have same := machine.store.objects.view_read_modify Object.payload id.index change kept
        other.index
      unfold Store.object Store.modifyObject
      rw [same]
      exact secludes.payloads other later
    contexts := fun other context table later =>
      Heap.forall_read_modify
        (fun place (cell : Object) => start.store.objects.size ≤ place →
          cell.payload.isCallable = true → cell.context = some context →
            context.table = some table → start.store.tables.size ≤ table.index)
        (fun address => secludes.contexts ⟨address⟩ context table)
        (fun _ callable claimed => fits.reaches callable context claimed table) other.index later }

theorem secludes_addList {items : Array Slot}
    (takes : ∀ slot ∈ items, (newer start moduleName).Takes machine slot) :
    start.Secludes moduleName (machine.withStore (machine.store.addList items).2) :=
  { secludes with
    untouched := secludes.untouched.addList items
    items := fun id value =>
      Heap.forall_read_push
        (fun place cell => start.store.lists.size ≤ place → .object value ∈ cell →
          start.Newer value)
        (fun address => secludes.items ⟨address⟩ value)
        (fun _ among => takes _ among value rfl) id.index }

theorem secludes_addDefaults {values : Array Slot}
    (takes : ∀ slot ∈ values, (newer start moduleName).Takes machine slot) :
    start.Secludes moduleName (machine.withStore (machine.store.addDefaults values).2) :=
  { secludes with
    untouched := secludes.untouched.addDefaults values
    defaultValues := fun id value =>
      Heap.forall_read_push
        (fun place cell => start.store.defaults.size ≤ place → .object value ∈ cell →
          start.Newer value)
        (fun address => secludes.defaultValues ⟨address⟩ value)
        (fun _ among => takes _ among value rfl) id.index }

theorem secludes_modifyDefaults {id : DefaultsId} {change : Array Slot → Array Slot}
    (later : start.store.defaults.size ≤ id.index)
    (takes : ∀ slot ∈ change (machine.store.defaultValues id),
      (newer start moduleName).Takes machine slot) :
    start.Secludes moduleName (machine.withStore (machine.store.modifyDefaults id change)) :=
  { secludes with
    untouched := secludes.untouched.modifyDefaults later change
    defaultValues := fun other value =>
      Heap.forall_read_modify
        (fun place cell => start.store.defaults.size ≤ place → .object value ∈ cell →
          start.Newer value)
        (fun address => secludes.defaultValues ⟨address⟩ value)
        (fun _ among => takes _ among value rfl) other.index }

theorem secludes_setSymbol {id : TableId} {value : ObjectId}
    (later : start.store.tables.size ≤ id.index) (name : String) (newer : start.Newer value) :
    start.Secludes moduleName (machine.withStore (machine.store.setSymbol id name (some value))) :=
  { secludes with
    untouched := secludes.untouched.setSymbol later name (some value)
    inside := Nat.lt_of_lt_of_eq secludes.inside (machine.store.tables.size_modify _ _).symm
    home := (machine.store.tables.view_read_modify Table.name id.index (·.set name (some value))
      (fun _ => rfl) start.store.tables.size).trans secludes.home
    orphan := (machine.store.parent_setSymbol id name (some value) _).trans secludes.orphan
    symbols := by
      intro other wanted found
      refine Heap.forall_read_modify
        (fun place (cell : Table) => start.store.tables.size ≤ place →
          cell.own? wanted = some (some found) → start.Newer found)
        (fun address => secludes.symbols ⟨address⟩ wanted found) ?_ other.index
      intro _ own
      rcases Table.own?_set_cases own with ⟨_, rfl⟩ | before
      · exact newer
      · exact secludes.symbols id wanted found later before
    parents := by
      intro other parent laterToo known
      rw [Store.parent_setSymbol] at known
      exact secludes.parents other parent laterToo known }

theorem secludes_enter {parent : Option TableId}
    (reached : ∀ table, parent = some table → start.store.tables.size ≤ table.index) :
    start.Secludes moduleName (machine.withStore (machine.store.addTable { parent }).2) := by
  have home := machine.store.tables.read_push_old { parent } secludes.inside
  exact
    { secludes with
      untouched := secludes.untouched.addTable { parent }
      inside := Nat.lt_of_lt_of_le secludes.inside (Machine.Untouched.le_push (Nat.le_refl _) _)
      home := (congrArg Table.name home).trans secludes.home
      orphan := (congrArg Table.parent home).trans secludes.orphan
      symbols := fun id name value =>
        Heap.forall_read_push
          (fun place (cell : Table) => start.store.tables.size ≤ place →
            cell.own? name = some (some value) → start.Newer value)
          (fun address => secludes.symbols ⟨address⟩ name value) (fun _ own => by cases own)
          id.index
      parents := fun id outer =>
        Heap.forall_read_push
          (fun place (cell : Table) => start.store.tables.size ≤ place → cell.parent = some outer →
            start.store.tables.size ≤ outer.index)
          (fun address => secludes.parents ⟨address⟩ outer) (fun _ known => reached outer known)
          id.index }

end

/-- The realm is closed, since the constant for no value is a number. -/
theorem closed_newer {held : Scalar}
    (null : (start.store.object Store.nullId).payload = .number held) (moduleName : String) :
    (newer start moduleName).Closed where
  null _ := .inl rfl
  number _ := trivial
  text _ := trivial
  object {machine id} secludes known := by
    rcases known with rfl | later
    · have inside : Store.nullId.index < start.store.objects.size := by
        apply Nat.lt_of_not_le
        intro outside
        have absent : start.store.object Store.nullId = default := Heap.read_of_le outside
        rw [absent] at null
        cases null
      have payload := (secludes.untouched.payloads _ inside).trans null
      apply fits_uncalled
      · rw [payload]
        trivial
      · rw [payload]
        rfl
      · exact fun _ _ => trivial
    · exact ⟨secludes.payloads id later, fun _ _ => trivial,
        fun callable context claimed table own =>
          secludes.contexts id context table later callable claimed own⟩
  addObject secludes fits :=
    ⟨keeps_newer (secludes_addObject secludes fits), .inr secludes.untouched.objects⟩
  claim secludes _ kept _ fits := keeps_newer (secludes_claim secludes kept fits)
  addList secludes takes :=
    ⟨keeps_newer (secludes_addList secludes takes), secludes.untouched.lists⟩
  items {machine id} secludes owns slot among value same := by
    subst same
    exact secludes.items id value owns among
  addDict {machine entries} secludes _ :=
    ⟨keeps_newer { secludes with untouched := secludes.untouched.addDict entries }, trivial⟩
  addDefaults {machine values} secludes takes := by
    refine ⟨keeps_newer (secludes_addDefaults secludes takes), ?_⟩
    intro closure new
    change start.store.defaults.size ≤ closure.defaults.index
    rw [new]
    exact secludes.untouched.defaults
  defaultValues {machine closure} secludes owns slot among value same := by
    subst same
    exact secludes.defaultValues closure.defaults value owns among
  modifyDefaults secludes owns takes := keeps_newer (secludes_modifyDefaults secludes owns takes)
  lookup secludes reached found := newer_of_lookup secludes reached found
  modules {machine table} secludes listed := by
    rw [secludes.modules, List.mem_singleton] at listed
    rw [listed]
    exact Nat.le_refl start.store.tables.size
  assign name secludes reached known _ :=
    keeps_newer (secludes_setSymbol secludes reached name known)
  enter secludes reached :=
    ⟨keeps_newer (secludes_enter secludes reached), secludes.untouched.tables⟩

theorem serves_newer (start : Machine) (moduleName : String) :
    (newer start moduleName).Serves := by
  intro self loyal function name arguments given before entrusts _ payload
  have owned := entrusts.fits.owns
  rw [payload] at owned
  exact owned.elim

end Realm

/-! ### The call -/

namespace Evaluator

open Activity

variable {before : Machine}

theorem untouched_bound {after : Machine} (untouched : before.Untouched after) (context : Context)
    {table : TableId} (later : before.store.tables.size ≤ table.index) (name : String)
    (value : ObjectId) : before.Untouched (bound after context table name value) := by
  have claimed : before.Untouched (after.withStore (after.store.modifyObject value fun object =>
      { object with context := some context })) := untouched.claim value fun _ => rfl
  exact claimed.setSymbol later name (some value)

theorem result_importScript (self : Evaluator) {path name : ObjectId} {text moduleName : String}
    (pathText : before.store.text? path = some text)
    (nameText : before.store.text? name = some moduleName) (call : Invocation) {table : TableId}
    (known : call.context.table = some table) :
    (importScript self call path name).result before =
      ((loadScript self call path moduleName).observe >>= fun _ => pure Library.null).result
        (withModule (before.withStore (before.store.setSymbol table "fn" (some path)))
          moduleName) := by
  have assigned : (assign call.context "fn" path).Ends before ()
      (before.withStore (before.store.setSymbol table "fn" (some path))) := by
    unfold assign tableOf
    rw [known]
    rfl
  unfold importScript
  rw [Eval.result_bind_ended (Library.ends_text call pathText (some 0)),
    Eval.result_bind_ended (Library.ends_text call nameText (some 1)),
    Eval.result_bind_ended (Eval.Ends.lift assigned)]
  rfl

/-- A call binds its arguments in a new table before the module is added. -/
theorem result_execute_import (self : Evaluator) {function : Object} {outer : Context}
    (isImport : function.payload = .builtin "importAs") (claimed : function.context = some outer)
    {path name : ObjectId} {text moduleName : String}
    (pathText : before.store.text? path = some text)
    (nameText : before.store.text? name = some moduleName) (given : List (String × Slot)) :
    ∃ (call : Invocation) (entered : Machine), before.Untouched entered ∧
      entered.modules = before.modules ∧
      (execute self function [path, name] given).result before =
        ((loadScript self call path moduleName).observe >>= fun _ => pure Library.null).result
          (withModule entered moduleName) := by
  let own : TableId := ⟨before.store.tables.size⟩
  let context : Context := { name := "importAs", entered := function.start, table := some own } ::
    outer
  let call : Invocation := { start := function.start, stop := function.stop, context }
  let added := before.withStore (before.store.addTable { parent := outer.table }).2
  let entered := bound (bound added context own "path" path) context own "name" name
  have new : before.store.tables.size ≤ own.index := Nat.le_refl _
  have untouched : before.Untouched entered :=
    untouched_bound (untouched_bound ((Machine.Untouched.refl before).addTable _) context new
      "path" path) context new "name" name
  have texts : ∀ id text, before.store.text? id = some text →
      entered.store.text? id = some text := by
    intro id text known
    have inside := (Store.isValue_of_text? known).inside
    unfold Store.text? at known ⊢
    rw [untouched.payloads id inside]
    exact known
  refine ⟨call, entered.withStore (entered.store.setSymbol own "fn" (some path)),
    untouched.setSymbol new "fn" (some path), rfl, ?_⟩
  have binds : (bindAll context [("path", .object path), ("name", .object name)]).Ends added ()
      entered :=
    (run_bindAll_cons rfl "path" path _ added).trans (run_bindAll_cons rfl "name" name [] _)
  have serves : (serve self function "importAs" [path, name] context).result added =
      (importScript self call path name).result entered := by
    have known : (Activity.part (Builtin.ofName? "importAs") : Eval Builtin) = pure .importAs := rfl
    have counted : (Eval.ofFault (checkCount "importAs" function Builtin.importAs.parameters
        [path, name])).result added = (.ok (.ok ()), added) := rfl
    unfold serve
    rw [known, pure_bind, Eval.result_bind_ended counted]
    exact Eval.result_bind_ended (Eval.Ends.lift binds) _
  calc (execute self function [path, name] given).result before
      = (callBuiltin self function "importAs" [path, name]).result before := by
          unfold execute
          rw [isImport]
    _ = (serve self function "importAs" [path, name] context).result added :=
          Eval.result_bind_ended (Eval.Ends.lift (ends_callContext "importAs" claimed before)) _
    _ = (importScript self call path name).result entered := serves
    _ = _ := result_importScript self (texts path text pathText) (texts name moduleName nameText)
          call rfl

/-- Whatever the script of the only module does, it leaves alone what was there before. -/
theorem secludes_loadScript (limits : Limits) (depth : Nat) {machine after : Machine}
    (first : machine.modules = []) {held : Scalar}
    (null : (machine.store.object Store.nullId).payload = .number held) {moduleName : String}
    (named : moduleName ≠ "") (call : Invocation) (path : ObjectId)
    {result : Except Crash (Except Interrupt Slot)}
    (ended : ((loadScript (atDepth limits depth) call path moduleName).observe >>= fun _ =>
      pure Library.null).result (withModule machine moduleName) = (result, after)) :
    machine.Secludes moduleName after ∧
      ∀ outcome, result = .ok outcome → outcome = .ok Library.null := by
  have closed := Realm.closed_newer null moduleName
  have loyal :=
    loyal_atDepth closed (Realm.serves_newer machine moduleName) trivial {} limits depth
  have loads : (loadScript (atDepth limits depth) call path moduleName).Stays
      (.newer machine moduleName) (withModule machine moduleName) fun slot after =>
        (Realm.newer machine moduleName).Takes after slot :=
    stays_loadScript closed loyal (fun _ => trivial) path moduleName fun empty =>
      absurd empty named
  have secludes := Machine.secludes_withModule first moduleName
  cases ran : (loadScript (atDepth limits depth) call path moduleName).result
      (withModule machine moduleName) with
  | mk outcome reached =>
      have kept := (Activity.Stays.keeps loads secludes ran).holds
      cases outcome with
      | error cause =>
          have same := (Eval.result_observe_crashed ran _).symm.trans ended
          cases same
          exact ⟨kept, fun _ same => by cases same⟩
      | ok outcome =>
          have same := (Eval.result_observe_ended ran _).symm.trans ended
          cases same
          exact ⟨kept, fun _ same => by cases same; rfl⟩

end Evaluator

theorem Machine.Reached.null {limits : Limits} {avoided : Moment → Prop} {machine : Machine}
    (reached : Machine.Reached limits avoided machine) :
    ∃ held, (machine.store.object Store.nullId).payload = .number held := by
  have value : Store.initial.IsValue Store.nullId := Store.sound_initial.null
  have done : Deeds True Store.initial machine.store := reached.deeds fun _ _ _ => trivial
  rcases done.becomes value with same | ⟨_, held, _, same⟩
  · exact ⟨_, same⟩
  · exact ⟨_, same⟩

open Evaluator in
/-- The first import is isolated.  Whatever the script does, and however the import comes out, all
cells that were there hold what they held, the global table is the same with the same bindings,
nothing was printed and no line was read.  There is one module, a new table with the given name and
without a parent.  If the import ends at all, it ends with the constant for no value. -/
theorem first_import_is_isolated (limits : Limits) (depth : Nat) {avoided : Moment → Prop}
    {before : Machine} (reached : Machine.Reached limits avoided before)
    (first : before.modules = []) {function : Object} {outer : Context}
    (isImport : function.payload = .builtin "importAs") (claimed : function.context = some outer)
    {path name : ObjectId} {text moduleName : String}
    (pathText : before.store.text? path = some text)
    (nameText : before.store.text? name = some moduleName) (named : moduleName ≠ "")
    (given : List (String × Slot)) {result : Except Crash (Except Interrupt Slot)}
    {after : Machine}
    (ended : (execute (atDepth limits depth) function [path, name] given).result before =
      (result, after)) :
    before.Untouched after ∧
      after.store.table after.globals = before.store.table before.globals ∧
      (∃ home, after.modules = [home] ∧ before.store.tables.size ≤ home.index ∧
        (after.store.table home).name = some moduleName ∧
        (after.store.table home).parent = none) ∧
      ∀ outcome, result = .ok outcome → outcome = .ok Library.null := by
  obtain ⟨call, entered, untouched, sameModules, comesTo⟩ :=
    result_execute_import (atDepth limits depth) isImport claimed pathText nameText given
  obtain ⟨held, null⟩ := reached.null
  have nullInside : Store.nullId.index < before.store.objects.size := by
    apply Store.IsValue.inside
    unfold Store.IsValue
    rw [null]
    rfl
  obtain ⟨secludes, concludes⟩ := secludes_loadScript limits depth (sameModules.trans first)
    ((untouched.payloads _ nullInside).trans null) named call path (comesTo.symm.trans ended)
  have whole := untouched.trans secludes.untouched
  refine ⟨whole, ?_, ⟨_, secludes.modules, untouched.tables, secludes.home, secludes.orphan⟩,
    concludes⟩
  rw [whole.globals]
  exact whole.bindings _ reached.rooted.globals

def Machine.withScript : Machine :=
  ((Machine.run .standard { name := "<stdin>", text := "\"a.kode\"; \"notes\"" } "").run.run
    (.initial { items := [(["a.kode"], .file "var x = 1")] } ["line"])).2

/-- The import of the script leaves the line and all names alone, and there is the module. -/
theorem first_import_is_isolated_notes :
    let before := Machine.withScript
    (before.modules = [] ∧ before.store.text? ⟨36⟩ = some "a.kode" ∧
      before.store.text? ⟨37⟩ = some "notes") ∧
    ∃ result after, (Evaluator.execute (.limited .standard) (.calledOutermost "importAs" before)
        [⟨36⟩, ⟨37⟩] []).result before = (result, after) ∧
      after.input = before.input ∧
      after.store.table after.globals = before.store.table before.globals ∧
      ∃ home, after.modules = [home] ∧ (after.store.table home).name = some "notes" := by
  have reached : Machine.Reached .standard (fun _ => False) Machine.withScript :=
    .between (.run (.start _ _) _ _ fun _ never => never.elim)
  have first : Machine.withScript.modules = [] := by decide +kernel
  have pathText : Machine.withScript.store.text? ⟨36⟩ = some "a.kode" := by decide +kernel
  have nameText : Machine.withScript.store.text? ⟨37⟩ = some "notes" := by decide +kernel
  have isImport : (Object.calledOutermost "importAs" .withScript).payload =
      .builtin "importAs" := rfl
  have claimed : (Object.calledOutermost "importAs" .withScript).context =
      some (Evaluator.outermost .withScript) := rfl
  refine ⟨⟨first, pathText, nameText⟩, ?_⟩
  cases ended : (Evaluator.execute (.limited .standard) (.calledOutermost "importAs" .withScript)
      [⟨36⟩, ⟨37⟩] []).result .withScript with
  | mk result after =>
      obtain ⟨untouched, globals, ⟨home, modules, _, named, _⟩, _⟩ :=
        first_import_is_isolated .standard Limits.standard.depth reached first isImport claimed
          pathText nameText (by decide) [] ended
      exact ⟨result, after, rfl, untouched.input, globals, home, modules, named⟩

end Lingo
