/-
Scopes are kept apart.

Unless a script is loaded, the evaluation of a tree changes no old symbol table but the
innermost one of its context, and the execution of a function changes none at all.  So what a
name stands for outside a function is the same after a call as before.
-/

import Lingo.Proofs.Eval.Moments

namespace Lingo

/-! ### Tables that enclose others -/

namespace Store

/-- One table is another, or is reached from it through parents. -/
inductive Encloses (store : Store) (outer : TableId) : TableId → Prop where
  | itself : Encloses store outer outer
  | outward {id parent : TableId} (known : (store.table id).parent = some parent)
      (further : Encloses store outer parent) : Encloses store outer id

theorem lookupFrom_eq {before after : Store} (name : String) (fuel : Nat) {id : TableId}
    (same : ∀ outer, before.Encloses outer id → after.table outer = before.table outer) :
    after.lookupFrom name fuel id = before.lookupFrom name fuel id := by
  induction fuel generalizing id with
  | zero => rfl
  | succ fuel ih =>
      unfold lookupFrom
      rw [same id .itself]
      dsimp only
      split
      · rfl
      · split
        · rename_i parent known
          exact ih fun outer encloses => same outer (.outward known encloses)
        · rfl

theorem Shields.trans_new {table : TableId} {before middle after : Store}
    (first : before.Shields none middle) (new : before.tables.size ≤ table.index)
    (second : middle.Shields (some table) after) : before.Shields none after := by
  constructor
  · exact Nat.le_trans first.tables second.tables
  · intro id old other
    have different : some table ≠ some id := by
      intro same
      cases same
      omega
    rw [second.keepsTables id (Nat.lt_of_lt_of_le old first.tables) different,
      first.keepsTables id old other]

end Store

/-! ### Jobs and their own tables -/

/-- The table that a job may change: the innermost one of the context in which a tree is
evaluated. -/
def Job.own : Job → Option TableId
  | visit _ context => context.table
  | execution _ _ _ => none

def Moment.loads (moment : Moment) : Bool :=
  match moment.job with
  | .visit _ _ => false
  | .execution function _ _ => function.payload.loads

def Footprint.shield (own : Option TableId) : Footprint where
  touches before after := before.store.Shields own after.store
  refl machine := .refl own machine.store
  trans := .trans

/-- The execution of a function in a context of its own, with any changes of defaults. -/
def Policy.sheltered (context : Context) : Policy where
  footprint := .shield context.table
  asks
    | .visit _ inner => inner = context
    | .execution _ _ _ => False
  strict := False

namespace Evaluator

open Activity

theorem orderly_conduct_sheltered (function : Object) (closure : Closure)
    (arguments : List ObjectId) (given : List (String × Slot)) (context : Context) :
    Orderly (.sheltered context) fun helper =>
      (liftM (changeStore
          (·.modifyDefaults closure.defaults (overrideDefaults closure.optional given))) >>=
        fun _ => conduct helper.evaluator function closure arguments context : Eval Slot) := by
  have conducted : Orderly (.entered False (fun _ => True) context) fun helper =>
      conduct helper.evaluator function closure arguments context :=
    orderly_conduct function trivial arguments
  have changed : (changeStore (·.modifyDefaults closure.defaults
      (overrideDefaults closure.optional given))).Within (.shield context.table) :=
    fun _ => ⟨Nat.le_refl _, fun _ _ _ => rfl⟩
  apply (Orderly.act changed).bind
  intro _
  apply conducted.mono
  · exact fun _ _ keeps => keeps.toShields
  · intro job asked
    cases job with
    | visit script inner => exact asked.2
    | execution _ _ _ => exact asked
  · exact id

theorem orderly_serve_sheltered (function : Object) {name : String}
    (quiet : ¬(Payload.builtin name).loads) (arguments : List ObjectId) (context : Context) :
    Orderly (.sheltered context) fun helper =>
      serve helper.evaluator function name arguments context := by
  have served : Orderly (.entered False (fun _ => True) context) fun helper =>
      serve helper.evaluator function name arguments context :=
    orderly_serve function (Builtin.not_loads quiet) arguments
  apply served.mono
  · exact fun _ _ keeps => keeps.toShields
  · intro job asked
    cases job with
    | visit script inner => exact asked.2
    | execution _ _ _ => exact asked
  · exact id

end Evaluator

/-! ### Evaluations -/

/-- An orderly evaluation changes no more tables than its own activities may and the jobs that it
leaves to others do. -/
theorem Orderly.shields {α : Type} {policy : Policy} {evaluation : Helper → Eval α}
    (orderly : Orderly policy evaluation) {own : Option TableId} {limits : Limits} {depth : Nat}
    (footprint : ∀ before after, policy.footprint.touches before after →
      before.store.Shields own after.store)
    (asked : ∀ job before, policy.asks job →
      (∀ moment, Moment.Meets limits ⟨depth, job, before⟩ moment → ¬moment.loads) →
        before.store.Shields own ((Halts.nowhere.perform limits depth job).result before).2.store)
    (before : Machine)
    (quiet : ∀ moment, Experiment.Meets (fun halts => evaluation (halts.perform limits depth))
      before (fun _ => False) moment → ¬moment.loads) :
    before.store.Shields own
      ((evaluation (Halts.nowhere.perform limits depth)).result before).2.store := by
  refine orderly.course
    (fun experiment before => before.store.Shields own
      ((experiment .nowhere).result before).2.store)
    (¬·.loads) limits depth ?alone asked ?followed before quiet
  case alone =>
    intro _ evaluation before within
    exact footprint _ _ (within before)
  case followed =>
    intro _ _ first next before _ _ starts goesOn
    cases ended : (first .nowhere).result before with
    | mk result middle =>
        rw [ended] at starts
        cases result with
        | error cause =>
            have whole : (first.followed next .nowhere).result before = (.error cause, middle) :=
              Eval.result_observe_crashed ended _
            rw [whole]
            exact starts
        | ok outcome =>
            have whole : (first.followed next .nowhere).result before =
                (next outcome .nowhere).result middle := Eval.result_observe_ended ended _
            rw [whole]
            exact starts.trans (goesOn outcome middle ended)

theorem Evaluator.shields_new_context {α : Type} (name : String) (function : Object)
    {evaluation : Context → Helper → Eval α}
    (orderly : ∀ context, Orderly (.sheltered context) (evaluation context)) {limits : Limits}
    {depth : Nat}
    (visits : ∀ script context before,
      (∀ moment, Moment.Meets limits ⟨depth, .visit script context, before⟩ moment →
        ¬moment.loads) →
        before.store.Shields context.table
          ((Halts.nowhere.perform limits depth (.visit script context)).result before).2.store)
    (before : Machine)
    (quiet : ∀ moment, Experiment.Meets (fun halts => liftM (callContext name function) >>=
      fun context => evaluation context (halts.perform limits depth)) before (fun _ => False)
        moment → ¬moment.loads) :
    before.store.Shields none ((liftM (callContext name function) >>= fun context =>
      evaluation context (Halts.nowhere.perform limits depth)).result before).2.store := by
  cases known : function.context with
  | none =>
      unfold callContext
      rw [known]
      exact .refl none before.store
  | some outer =>
      obtain ⟨context, middle, ends, fresh, added⟩ : ∃ context middle,
          (callContext name function).Ends before context middle ∧
            context.table = some ⟨before.store.tables.size⟩ ∧
              before.store.Shields none middle.store :=
        ⟨_, _, ends_callContext name known before, rfl,
          (Activity.within_addTable _ before).toShields⟩
      have ended := Eval.Ends.lift ends
      have later : middle.store.Shields context.table
          ((evaluation context (Halts.nowhere.perform limits depth)).result middle).2.store := by
        apply (orderly context).shields fun _ _ shields => shields
        · intro job machine asked met
          cases job with
          | visit script inner => exact asked ▸ visits script inner machine met
          | execution _ _ _ => exact asked.elim
        · intro moment meets
          exact quiet moment (meets.bind_later (Experiment.heeds_alone _) ended)
      -- The table that may change was not there before.
      rw [fresh] at later
      rw [Eval.result_bind_ended ended]
      exact added.trans_new (Nat.le_refl _) later

/-! ### Jobs -/

/-- Unless a script is loaded, a job leaves all old tables but its own as they are. -/
theorem Halts.shields_perform (limits : Limits) (depth : Nat) (job : Job) (before : Machine)
    (quiet : ∀ moment, Moment.Meets limits ⟨depth, job, before⟩ moment → ¬moment.loads) :
    before.store.Shields job.own
      ((Halts.nowhere.perform limits depth job).result before).2.store := by
  induction depth, job using Job.induction generalizing before with
  | bottom script context => exact .refl _ before.store
  | execution depth visits function arguments given =>
      have itself := quiet _ Experiment.meets_entered_self
      have inside : ∀ moment, Experiment.Meets (fun halts => Evaluator.execute
          (halts.perform limits depth).evaluator function arguments given) before
            (fun _ => False) moment → ¬moment.loads :=
        fun moment meets => quiet moment (meets.entered id)
      change before.store.Shields none ((Evaluator.execute
        (Halts.nowhere.perform limits depth).evaluator function arguments given).result
          before).2.store
      unfold Moment.loads at itself
      unfold Evaluator.execute at inside ⊢
      cases payload : function.payload with
      | function closure =>
          rw [payload] at inside
          exact Evaluator.shields_new_context closure.name function (fun context =>
            Evaluator.orderly_conduct_sheltered function closure arguments given context)
              visits before inside
      | builtin name =>
          rw [payload] at inside
          dsimp only at itself
          rw [payload] at itself
          exact Evaluator.shields_new_context name function (fun context =>
            Evaluator.orderly_serve_sheltered function itself arguments context)
              visits before inside
      | _ => exact .refl none before.store
  | visit depth jobs script context =>
      have orderly := Evaluator.orderly_step_any limits script context
      refine orderly.shields (fun _ _ keeps => keeps.toShields) ?_ before fun moment meets =>
        quiet moment (meets.entered id)
      intro job middle asked met
      have shields := jobs job middle met
      cases job with
      | visit script inner => exact asked.2 ▸ shields
      | execution _ _ _ => exact ⟨shields.tables, fun id old _ => shields.keepsTables id old nofun⟩

/-- Scopes are kept apart: if no script is loaded, then a job, however it ends, leaves all old
tables but its own as they were, and every name stands for the same object where that table does
not take part.  An execution has no table of its own, so after a call all variables of the caller
and of every enclosing scope are bound as before. -/
theorem scopes_stay_apart (limits : Limits) {start : Moment}
    (quiet : ∀ moment, start.Meets limits moment → ¬moment.loads)
    {result : Except Crash (Except Interrupt start.job.Answer)} {after : Machine}
    (ended : (start.job.perform limits start.depth).result start.machine = (result, after)) :
    (∀ id : TableId, id.index < start.machine.store.tables.size → start.job.own ≠ some id →
      after.store.table id = start.machine.store.table id) ∧
      ∀ (id : TableId) (name : String),
        (∀ outer, start.machine.store.Encloses outer id →
          outer.index < start.machine.store.tables.size ∧ start.job.own ≠ some outer) →
            after.store.lookup id name = start.machine.store.lookup id name := by
  have shields := Halts.shields_perform limits start.depth start.job start.machine quiet
  rw [Halts.result_nowhere, ended] at shields
  constructor
  · exact shields.keepsTables
  · intro id name shielded
    apply Store.lookupFrom_eq
    intro outer encloses
    obtain ⟨old, other⟩ := shielded outer encloses
    exact shields.keepsTables outer old other

def Halts.atLoading : Halts := fun moment =>
  if moment.loads then some .tooDeep else none

theorem Halts.quiet {limits : Limits} {start : Moment}
    {outcome : Except Interrupt start.job.Answer} {machine : Machine}
    (ended : (Halts.atLoading.perform limits start.depth start.job).result start.machine =
      (.ok outcome, machine))
    (moment : Moment) (meets : start.Meets limits moment) : ¬moment.loads := by
  have free : Halts.atLoading moment = none := Halts.not_met ended meets
  intro loads
  have stops := (if_pos loads).symm.trans free
  cases stops

def Object.assigning : Object where
  payload := .function
    { name := "f", parameters := [], optional := [], defaults := ⟨0⟩, yields := true
      body := .assign default "f" (.number default (.int 1)) }
  context := some [{ name := "<program>", entered := none, table := some ⟨0⟩ }]

def Moment.callingAssigning : Moment where
  depth := 2
  job := .execution .assigning [] []
  machine :=
    { store := { objects := ⟨#[.assigning]⟩, tables := ⟨#[{ symbols := [("f", some ⟨0⟩)] }]⟩ }
      globals := ⟨0⟩ }

/-- Inside, the name comes to stand for the number; outside, it stands for the function as
before. -/
theorem scopes_stay_apart_assigning :
    (∀ moment, Moment.callingAssigning.Meets ⟨2, 1⟩ moment → ¬moment.loads) ∧
      ∃ answer after, (Moment.callingAssigning.job.perform ⟨2, 1⟩ 2).result
        Moment.callingAssigning.machine = (.ok (.ok answer), after) ∧
          after.store.lookup ⟨1⟩ "f" = some ⟨1⟩ ∧ after.store.lookup ⟨0⟩ "f" = some ⟨0⟩ := by
  have quiet : ∀ moment, Moment.callingAssigning.Meets ⟨2, 1⟩ moment → ¬moment.loads :=
    Halts.quiet rfl
  have outermost : ∀ outer, Moment.callingAssigning.machine.store.Encloses outer ⟨0⟩ →
      outer.index < 1 ∧ Moment.callingAssigning.job.own ≠ some outer := by
    intro outer encloses
    cases encloses with
    | itself => exact ⟨Nat.one_pos, nofun⟩
    | outward known further => cases known
  exact ⟨quiet, _, _, rfl, rfl, (scopes_stay_apart ⟨2, 1⟩ quiet rfl).2 ⟨0⟩ "f" outermost⟩

end Lingo
