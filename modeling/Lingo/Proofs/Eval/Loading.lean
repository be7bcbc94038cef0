/-
Scripts that cannot be loaded.

The functions that load scripts change the machine before they know whether there is a script to
load.  One puts a fresh global table in use and then fails; the other adds the table of a module
and then succeeds as if the module had been loaded, unless an argument is of the wrong kind.
-/

import Lingo.Proofs.Eval.Defaults
import Lingo.Proofs.Eval.Keys

namespace Lingo

variable {path : ObjectId}

/-! ### What a call leaves alone -/

theorem Heap.view_read_modify {α β : Type} [Inhabited α] (view : α → β) (heap : Heap α)
    (place : Nat) (change : α → α) (kept : ∀ cell, view (change cell) = view cell)
    (address : Nat) :
    view ((heap.modify place change).read address) = view (heap.read address) := by
  by_cases same : place = address
  · subst same
    rcases Nat.lt_or_ge place heap.size with inside | outside
    · rw [heap.read_modify_same change inside, kept]
    · have beyond := Nat.le_trans (Nat.le_of_eq (heap.size_modify place change)) outside
      rw [read_of_le outside, read_of_le beyond]
  · rw [heap.read_modify_away change same]

namespace Store

/-- The tables up to a bound and the payloads of all objects are those of an earlier store. -/
structure Retains (bound : Nat) (before after : Store) : Prop where
  inside : bound ≤ after.tables.size
  tables : ∀ id : TableId, id.index < bound → after.table id = before.table id
  payloads : ∀ id : ObjectId, (after.object id).payload = (before.object id).payload

variable {bound : Nat} {before after : Store}

theorem Retains.refl (store : Store) : store.Retains store.tables.size store :=
  ⟨Nat.le_refl _, fun _ _ => rfl, fun _ => rfl⟩

variable (retains : before.Retains bound after)

include retains

theorem Retains.text? (id : ObjectId) : after.text? id = before.text? id := by
  unfold Store.text?
  rw [retains.payloads id]

theorem Retains.addTable (table : Table) : before.Retains bound (after.addTable table).2 where
  inside := Nat.le_trans retains.inside
    (Nat.le_of_lt (after.tables.lt_size_push table))
  tables := by
    intro id old
    rw [← retains.tables id old]
    exact after.tables.read_push_old table (Nat.lt_of_lt_of_le old retains.inside)
  payloads := retains.payloads

theorem Retains.setSymbol {id : TableId} (later : bound ≤ id.index) (name : String)
    (value : Option ObjectId) : before.Retains bound (after.setSymbol id name value) where
  inside := Nat.le_trans retains.inside (Nat.le_of_eq (after.tables.size_modify _ _).symm)
  tables := by
    intro other old
    rw [← retains.tables other old]
    exact after.tables.read_modify_away _ (by omega)
  payloads := retains.payloads

theorem Retains.setContext (id : ObjectId) (context : Context) :
    before.Retains bound
      (after.modifyObject id fun object => { object with context := some context }) where
  inside := retains.inside
  tables := retains.tables
  payloads := by
    intro other
    rw [← retains.payloads other]
    exact after.objects.view_read_modify Object.payload id.index
      (fun object => { object with context := some context }) (fun _ => rfl) other.index

end Store

namespace Machine

/-- A path does not lead to a script: it is no text, its text has another ending, or there is
nothing to read at its place. -/
def CannotLoad (machine : Machine) (path : ObjectId) : Prop :=
  ∀ text, machine.store.text? path = some text →
    Evaluator.isScriptPath text = false ∨ ∃ fault, machine.folder.read text = .error fault

theorem CannotLoad.later {machine : Machine} (unloadable : machine.CannotLoad path)
    (later : Machine) (same : later.store.text? path = machine.store.text? path)
    (folder : later.folder = machine.folder) : later.CannotLoad path := by
  intro text named
  rw [folder]
  exact unloadable text (same.symm.trans named)

end Machine

/-! ### The beginning of a call -/

namespace Evaluator

open Activity

variable (self : Evaluator) {before : Machine}

theorem ends_addTable (table : Table) (machine : Machine) :
    (addTable table).Ends machine ⟨machine.store.tables.size⟩
      { machine with store := (machine.store.addTable table).2 } :=
  rfl

theorem ends_bindAll {context : Context} {table : TableId} (known : context.table = some table)
    {start : Store} (later : start.tables.size ≤ table.index)
    (bindings : List (String × ObjectId)) (before : Machine)
    (retains : start.Retains start.tables.size before.store) :
    ∃ store, (bindAll context (bindings.map fun binding => (binding.1, .object binding.2))).Ends
        before () { before with store } ∧
      start.Retains start.tables.size store := by
  induction bindings generalizing before with
  | nil => exact ⟨before.store, rfl, retains⟩
  | cons binding rest ih =>
      obtain ⟨name, value⟩ := binding
      have opened := run_bindAll_cons known name value
        (rest.map fun binding => (binding.1, .object binding.2)) before
      obtain ⟨store, ends, keeps⟩ := ih (bound before context table name value)
        ((retains.setContext value context).setSymbol later name (some value))
      exact ⟨store, opened.trans ends, keeps⟩

theorem callBuiltin_enters {function : Object} {outer : Context}
    (claimed : function.context = some outer) (builtin : Builtin) (arguments : List ObjectId)
    (counted : arguments.length = builtin.parameters.length) (before : Machine) :
    ∃ context store, Context.table context = some ⟨before.store.tables.size⟩ ∧
      before.store.Retains before.store.tables.size store ∧
      ∀ result after,
        (builtinAnswer self { start := function.start, stop := function.stop, context } builtin
          arguments).Ends { before with store } result after →
        (callBuiltin self function builtin.name arguments).Ends before result after := by
  have found : Builtin.ofName? builtin.name = some builtin := by cases builtin <;> rfl
  obtain ⟨context, known, enters⟩ : ∃ context : Context,
      context.table = some ⟨before.store.tables.size⟩ ∧
        (callContext builtin.name function).Ends before context
          { before with store := (before.store.addTable { parent := outer.table }).2 } :=
    ⟨_, rfl, ends_callContext builtin.name claimed before⟩
  have retains := (Store.Retains.refl before.store).addTable { parent := outer.table }
  obtain ⟨store, binds, retained⟩ := ends_bindAll known (Nat.le_refl _)
    (builtin.parameters.zip arguments)
    { before with store := (before.store.addTable { parent := outer.table }).2 } retains
  refine ⟨context, store, known, retained, ?_⟩
  intro result after answers
  apply Eval.Ends.bind (Eval.Ends.lift enters)
  unfold serve
  have checked : checkCount builtin.name function builtin.parameters arguments = .ok () := by
    unfold checkCount
    rw [if_neg (by omega), if_neg (by omega)]
  rw [found]
  apply Eval.Ends.bind (a := builtin) rfl
  rw [checked, List.zip_map_right]
  apply Eval.Ends.bind (a := ()) rfl
  exact Eval.Ends.bind (Eval.Ends.lift binds) answers

/-! ### Loading -/

theorem ends_fail {α : Type} (call : Invocation) (complaint : Complaint) (machine : Machine) :
    (call.fail complaint : Eval α).Ends machine
      (.error (.failed (Operation.fault complaint call.start call.stop (some call.context))))
      machine :=
  rfl

theorem ends_loadScript_failed (unloadable : before.CannotLoad path) (call : Invocation)
    (moduleName : String) :
    ∃ fault,
      (loadScript self call path moduleName).Ends before (.error (.failed fault)) before := by
  cases named : before.store.text? path with
  | none => exact ⟨_, (Library.ends_text_refused call named none).interrupted⟩
  | some text =>
      have taken := Library.ends_text call named none
      by_cases ending : isScriptPath text = true
      · obtain ⟨fault, unread⟩ := (unloadable text named).resolve_left (by rw [ending]; decide)
        apply Exists.intro
        apply Eval.Ends.bind taken
        rw [ending]
        apply Eval.Ends.bind rfl
        rw [unread]
        exact ends_fail call _ before
      · apply Exists.intro
        apply Eval.Ends.bind taken
        rw [Bool.eq_false_iff.mpr ending]
        exact ends_fail call _ before

/-- A script that cannot be loaded is not run, and the global table is a fresh one all the same. -/
theorem ends_runScript_failed (unloadable : before.CannotLoad path) (call : Invocation) :
    ∃ fault, (runScript self call path).Ends before (.error (.failed fault))
      { before with
        store := (before.store.addTable { symbols := startingNames }).2
        globals := ⟨before.store.tables.size⟩ } := by
  obtain ⟨fault, fails⟩ := ends_loadScript_failed self
    (unloadable.later
      { before with
        store := (before.store.addTable { symbols := startingNames }).2
        globals := ⟨before.store.tables.size⟩ } rfl rfl) call ""
  exact ⟨fault, Eval.Ends.bind (Eval.Ends.lift rfl) fails⟩

/-- An argument of the wrong kind is refused before there is a module. -/
theorem ends_importScript_refused (before : Machine) {name : ObjectId}
    (nameless : before.store.text? path = none ∨ before.store.text? name = none)
    (call : Invocation) :
    ∃ fault, (importScript self call path name).Ends before (.error (.failed fault)) before := by
  cases pathText : before.store.text? path with
  | none => exact ⟨_, (Library.ends_text_refused call pathText (some 0)).interrupted⟩
  | some text =>
      have noName := nameless.resolve_left (by rw [pathText]; exact Option.some_ne_none text)
      apply Exists.intro
      apply Eval.Ends.bind (Library.ends_text call pathText (some 0))
      exact (Library.ends_text_refused call noName (some 1)).interrupted

def withModule (machine : Machine) (moduleName : String) : Machine :=
  { machine with
    store := (machine.store.addTable { name := some moduleName }).2
    modules := machine.modules ++ [⟨machine.store.tables.size⟩] }

/-- Where there is no script, the module is added all the same, and nothing is reported. -/
theorem ends_importScript_unloaded {name : ObjectId} (unloadable : before.CannotLoad path)
    {text moduleName : String} (pathText : before.store.text? path = some text)
    (nameText : before.store.text? name = some moduleName) (call : Invocation) {table : TableId}
    (known : call.context.table = some table) :
    (importScript self call path name).Ends before (.ok Library.null)
      (withModule { before with store := before.store.setSymbol table "fn" (some path) }
        moduleName) := by
  have assigned : (assign call.context "fn" path).Ends before ()
      { before with store := before.store.setSymbol table "fn" (some path) } := by
    unfold assign tableOf
    rw [known]
    rfl
  obtain ⟨fault, fails⟩ := ends_loadScript_failed self
    (unloadable.later
      (withModule { before with store := before.store.setSymbol table "fn" (some path) }
        moduleName) rfl rfl) call moduleName
  have observed : (loadScript self call path moduleName).observe.Ends
      (withModule { before with store := before.store.setSymbol table "fn" (some path) } moduleName)
      (.ok (.error (.failed fault)))
      (withModule { before with store := before.store.setSymbol table "fn" (some path) }
        moduleName) := Eval.Ends.lift fails
  apply Eval.Ends.bind (Library.ends_text call pathText (some 0))
  apply Eval.Ends.bind (Library.ends_text call nameText (some 1))
  apply Eval.Ends.bind (Eval.Ends.lift assigned)
  apply Eval.Ends.bind (Eval.Ends.lift (ends_addTable { name := some moduleName } _))
  apply Eval.Ends.bind (a := ()) rfl
  exact Eval.Ends.bind observed rfl

end Evaluator

open Evaluator in
/-- What becomes of a session when there is no script to load.  The first function fails, and from
then on a fresh global table is in use, in which no name of the session is bound.  The second fails
without a trace only if an argument is of the wrong kind; otherwise it succeeds, and there is one
more module, which holds no names. -/
theorem failed_load_changes_session (self : Evaluator) (function : Object) {outer : Context}
    (claimed : function.context = some outer) {before : Machine} {path : ObjectId}
    (unloadable : before.CannotLoad path) (given : List (String × Slot)) :
    (function.payload = .builtin "run" →
      ∃ fault after,
        (execute self function [path] given).Ends before (.error (.failed fault)) after ∧
        before.store.Retains before.store.tables.size after.store ∧
        before.store.tables.size ≤ after.globals.index ∧
        after.store.table after.globals = { symbols := startingNames } ∧
        after.modules = before.modules) ∧
    (function.payload = .builtin "importAs" → ∀ name : ObjectId,
      (before.store.text? path = none ∨ before.store.text? name = none →
        ∃ fault after,
          (execute self function [path, name] given).Ends before (.error (.failed fault)) after ∧
          before.store.Retains before.store.tables.size after.store ∧
          after.globals = before.globals ∧ after.modules = before.modules) ∧
      ∀ text moduleName, before.store.text? path = some text →
        before.store.text? name = some moduleName →
        ∃ added after,
          (execute self function [path, name] given).Ends before (.ok Library.null) after ∧
          before.store.Retains before.store.tables.size after.store ∧
          after.globals = before.globals ∧ after.modules = before.modules ++ [added] ∧
          before.store.tables.size ≤ added.index ∧
          after.store.table added = { name := some moduleName }) := by
  constructor
  · intro isRun
    obtain ⟨context, store, known, retains, comesTo⟩ :=
      callBuiltin_enters self claimed .run [path] rfl before
    have still := unloadable.later { before with store } (retains.text? path) rfl
    obtain ⟨fault, fails⟩ := ends_runScript_failed self still
      { start := function.start, stop := function.stop, context }
    unfold execute
    rw [isRun]
    exact ⟨fault, _, comesTo _ _ fails, retains.addTable _, retains.inside,
      store.tables.read_push_new _, rfl⟩
  · intro isImport name
    obtain ⟨context, store, known, retains, comesTo⟩ :=
      callBuiltin_enters self claimed .importAs [path, name] rfl before
    have still := unloadable.later { before with store } (retains.text? path) rfl
    unfold execute
    rw [isImport]
    constructor
    · intro nameless
      rw [← retains.text? path, ← retains.text? name] at nameless
      obtain ⟨fault, fails⟩ := ends_importScript_refused self { before with store } nameless
        { start := function.start, stop := function.stop, context }
      exact ⟨fault, _, comesTo _ _ fails, retains, rfl, rfl⟩
    · intro text moduleName pathText nameText
      rw [← retains.text?] at pathText nameText
      have bound := retains.setSymbol (Nat.le_refl _) "fn" (some path)
      have ends := ends_importScript_unloaded self still pathText nameText
        { start := function.start, stop := function.stop, context } known
      exact ⟨_, _, comesTo _ _ ends, bound.addTable _, rfl, rfl, bound.inside,
        (store.setSymbol _ "fn" (some path)).tables.read_push_new _⟩

def Machine.withPath : Machine :=
  { Machine.initial {} [] with
    store := ((Store.initial.addObject { payload := .text "" }).2.addObject
      { payload := .text "notes" }).2 }

def Object.calledOutermost (name : String) (machine : Machine) : Object :=
  { payload := .builtin name, context := some (Evaluator.outermost machine) }

theorem failed_load_changes_session_notes :
    let machine := Machine.withPath
    let path : ObjectId := ⟨36⟩
    let name : ObjectId := ⟨37⟩
    let execution (function : String) (arguments : List ObjectId) : Eval Slot :=
      Evaluator.execute (.limited .standard) (.calledOutermost function machine) arguments []
    (machine.store.text? name = some "notes" ∧ machine.CannotLoad path) ∧
    (∃ fault after, (execution "run" [path]).Ends machine (.error (.failed fault)) after ∧
      machine.globals.index < after.globals.index ∧
      after.store.table after.globals = { symbols := startingNames }) ∧
    (∃ fault after, (execution "importAs" [path, Store.trueId]).Ends machine
      (.error (.failed fault)) after ∧ after.modules = []) ∧
    ∃ added after, (execution "importAs" [path, name]).Ends machine (.ok Library.null) after ∧
      after.modules = [added] ∧ after.store.table added = { name := some "notes" } := by
  have named : Machine.withPath.store.text? ⟨37⟩ = some "notes" := rfl
  have unloadable : Machine.withPath.CannotLoad ⟨36⟩ := by
    intro text found
    cases found
    exact .inr ⟨.missing, rfl⟩
  obtain ⟨runFault, runAfter, runs, _, fresh, starting, _⟩ :=
    (failed_load_changes_session (.limited .standard) (.calledOutermost "run" .withPath) rfl
      unloadable []).1 rfl
  have imports := (failed_load_changes_session (.limited .standard)
    (.calledOutermost "importAs" .withPath) rfl unloadable []).2 rfl
  obtain ⟨fault, refused, refuses, _, _, none⟩ := (imports Store.trueId).1 (.inr rfl)
  obtain ⟨added, after, ends, _, _, one, _, empty⟩ := (imports ⟨37⟩).2 _ _ rfl named
  exact ⟨⟨named, unloadable⟩, ⟨runFault, runAfter, runs, fresh, starting⟩,
    ⟨fault, refused, refuses, none⟩, ⟨added, after, ends, one, empty⟩⟩

/-- A name that one text binds is lost when the next one fails to load a script. -/
theorem failed_load_loses_session :
    let before := Machine.afterText "var x = 1"
    let after := ((Machine.run .standard { name := "<stdin>", text := "run(5)" } "").run.run before).2
    (before.store.lookup before.globals "x").isSome = true ∧
      after.store.lookup after.globals "x" = none := by
  decide +kernel

end Lingo
