/-
How the body of a function comes up.

The body is evaluated if the arguments are as many as the parameters and every optional parameter
has an object.  Otherwise the execution reports the number of arguments or ends abnormally.
-/

import Lingo.Proofs.Eval.Calling

namespace Lingo

variable {name : String} {place : Nat}

def Payload.closure? : Payload → Option Closure
  | .function closure => some closure
  | _ => none

theorem Moment.meets_self (limits : Limits) (moment : Moment) : moment.Meets limits moment := by
  obtain ⟨depth, job, machine⟩ := moment
  cases job with
  | execution function arguments given => exact Experiment.meets_entered_self
  | visit script context =>
      cases depth with
      | zero => exact Experiment.meets_entered_self
      | succ depth => exact Experiment.meets_entered_self

namespace Evaluator

open Activity

variable {self : Evaluator} {context : Context} {table : TableId} {before after : Machine}

/-! ### Binding -/

theorem exists_bindAll (here : context.table = some table) {bindings : List (String × Slot)}
    (objects : ∀ binding ∈ bindings, ∃ id, binding.2 = .object id) (before : Machine) :
    ∃ after, (bindAll context bindings).Ends before () after ∧
      after.store.defaults = before.store.defaults := by
  induction bindings generalizing before with
  | nil => exact ⟨before, rfl, rfl⟩
  | cons binding rest ih =>
      obtain ⟨name, slot⟩ := binding
      obtain ⟨isObject, others⟩ := List.forall_mem_cons.mp objects
      obtain ⟨id, rfl⟩ := isObject
      obtain ⟨after, ends, same⟩ := ih others (bound before context table name id)
      exact ⟨after, (run_bindAll_cons here name id rest before).trans ends, same⟩

theorem crashed_bindAll (here : context.table = some table) {bindings : List (String × Slot)}
    {binding : String × Slot} (among : binding ∈ bindings) (bare : ∀ id, binding.2 ≠ .object id)
    (before : Machine) :
    ∃ after, (bindAll context bindings).run.run before = (.error .missingPart, after) := by
  induction bindings generalizing before with
  | nil => exact absurd among List.not_mem_nil
  | cons head rest ih =>
      obtain ⟨name, slot⟩ := head
      cases slot with
      | object id =>
          have later : binding ∈ rest := by
            rcases List.mem_cons.mp among with same | later
            · exact absurd (congrArg Prod.snd same) (bare id)
            · exact later
          obtain ⟨after, crashed⟩ := ih later (bound before context table name id)
          exact ⟨after, (run_bindAll_cons here name id rest before).trans crashed⟩
      | bare scalar => exact ⟨before, rfl⟩
      | nothing => exact ⟨before, rfl⟩

/-! ### Executions -/

theorem result_lift_crashed {α β : Type} {activity : Activity α} {cause : Crash}
    (crashed : activity.run.run before = (.error cause, after)) (next : α → Eval β) :
    ((liftM activity : Eval α) >>= next).result before = (.error cause, after) := by
  rw [Eval.bind_eq_observe]
  apply Eval.result_observe_crashed
  have lifted : (liftM activity : Eval α) = ExceptT.lift activity := rfl
  unfold Eval.result
  rw [lifted, ExceptT.run_lift, ExceptT.run_map, StateT.run_map, crashed]
  rfl

theorem ends_lift_iff {α : Type} {activity : Activity α} {outcome : Except Interrupt α} :
    (liftM activity : Eval α).Ends before outcome after ↔
      ∃ a, outcome = .ok a ∧ activity.Ends before a after := by
  constructor
  · intro ends
    cases reached : activity.run.run before with
    | mk result middle =>
        cases result with
        | ok a =>
            have same := (Eval.Ends.lift reached).symm.trans ends
            cases same
            exact ⟨a, rfl, reached⟩
        | error cause =>
            have crashed := result_lift_crashed reached (pure : α → Eval α)
            rw [bind_pure] at crashed
            have same := crashed.symm.trans ends
            cases same
  · rintro ⟨a, rfl, ends⟩
    exact Eval.Ends.lift ends

variable {function : Object} {closure : Closure} {arguments : List ObjectId}
  {given : List (String × Slot)} {outer : Context}

theorem getElem?_entering (closure : Closure) (outer : Context) (given : List (String × Slot))
    (place : Nat) :
    ((entering before closure outer given).store.defaultValues closure.defaults)[place]? =
      (before.store.defaultValues closure.defaults)[place]?.map
        (givenAt closure.optional place given).getD := by
  rcases Nat.lt_or_ge closure.defaults.index before.store.defaults.size with inside | outside
  · rw [← getElem?_overrideDefaults]
    exact congrArg (·[place]?) (before.store.defaults.read_modify_same _ inside)
  · have none : before.store.defaultValues closure.defaults = #[] := Heap.read_of_le outside
    have still : (entering before closure outer given).store.defaultValues closure.defaults =
        #[] := by
      apply Heap.read_of_le
      exact Nat.le_trans (Nat.le_of_eq (before.store.defaults.size_modify _ _)) outside
    rw [none, still]
    rfl

theorem result_execute (payload : function.payload = .function closure)
    (claimed : function.context = some outer) (arguments : List ObjectId)
    (given : List (String × Slot)) :
    (execute self function arguments given).result before =
      (conduct self function closure arguments (callFrame before function closure :: outer)).result
        (entering before closure outer given) := by
  unfold execute
  rw [payload]
  exact Eval.result_bind_ended (Eval.Ends.lift (ends_callContext closure.name claimed before)) _

theorem crashed_execute (payload : function.payload = .function closure)
    (unclaimed : function.context = none) (arguments : List ObjectId)
    (given : List (String × Slot)) :
    (execute self function arguments given).result before = (.error .missingPart, before) := by
  have crashed : (callContext closure.name function).run.run before =
      (.error .missingPart, before) := by
    unfold callContext
    rw [unclaimed]
    rfl
  unfold execute
  rw [payload]
  exact result_lift_crashed crashed _

theorem objects_of_arguments (names : List String) (arguments : List ObjectId) :
    ∀ binding ∈ names.zip (arguments.map Slot.object), ∃ id, binding.2 = .object id := by
  intro binding among
  obtain ⟨id, _, same⟩ := List.mem_map.mp (List.of_mem_zip among).2
  exact ⟨id, same.symm⟩

/-- A parameter that is left without an object makes a call end abnormally. -/
theorem crashed_conduct (self : Evaluator) (here : context.table = some table)
    (counted : checkCount closure.name function closure.parameters arguments = .ok ())
    {binding : String × Slot}
    (among : binding ∈ closure.optional.zip (before.store.defaultValues closure.defaults).toList)
    (bare : ∀ id, binding.2 ≠ .object id) :
    ∃ after, (conduct self function closure arguments context).result before =
      (.error .missingPart, after) := by
  obtain ⟨middle, ends, same⟩ := exists_bindAll here
    (objects_of_arguments closure.parameters arguments) before
  have values : middle.store.defaultValues = before.store.defaultValues := by
    unfold Store.defaultValues
    rw [same]
  rw [← values] at among
  obtain ⟨after, crashed⟩ := crashed_bindAll here among bare middle
  refine ⟨after, ?_⟩
  have passes : (Eval.ofFault (.ok ())).result before = (.ok (.ok ()), before) := rfl
  unfold conduct
  rw [counted, Eval.result_bind_ended passes, Eval.result_bind_ended (Eval.Ends.lift ends),
    Eval.result_bind_ended (Eval.Ends.lift (ends_store middle))]
  exact result_lift_crashed crashed _

theorem exists_binds (here : context.table = some table)
    (counted : checkCount closure.name function closure.parameters arguments = .ok ())
    (objects : ∀ binding ∈ closure.optional.zip
      (before.store.defaultValues closure.defaults).toList, ∃ id, binding.2 = .object id) :
    ∃ ready, Binds function closure arguments context before ready := by
  obtain ⟨middle, ends, same⟩ := exists_bindAll here
    (objects_of_arguments closure.parameters arguments) before
  have values : middle.store.defaultValues = before.store.defaultValues := by
    unfold Store.defaultValues
    rw [same]
  rw [← values] at objects
  obtain ⟨ready, endsToo, _⟩ := exists_bindAll here objects middle
  exact ⟨ready, counted, middle, ends, endsToo⟩

/-- What an execution makes of the end of the body.  Only a return ends here. -/
def finishBody (closure : Closure) : Except Interrupt ObjectId → Eval Slot
  | .ok id => return .object (if closure.yields then id else Store.nullId)
  | .error (.returned id) => return .object id
  | .error other => throw other

section

variable {ready : Machine} (binds : Binds function closure arguments context before ready)
include binds

theorem Binds.result (self : Evaluator) :
    (conduct self function closure arguments context).result before =
      ((self closure.body context).observe >>= finishBody closure).result ready := by
  obtain ⟨middle, ends, endsToo⟩ := binds.bound
  have passes : (Eval.ofFault (.ok ())).result before = (.ok (.ok ()), before) := rfl
  unfold conduct
  rw [binds.counted, Eval.result_bind_ended passes, Eval.result_bind_ended (Eval.Ends.lift ends),
    Eval.result_bind_ended (Eval.Ends.lift (ends_store middle)),
    Eval.result_bind_ended (Eval.Ends.lift endsToo)]
  rfl

theorem Binds.meets (limits : Limits) (depth : Nat) :
    Experiment.Meets (fun halts => conduct (halts.perform limits depth).evaluator function
      closure arguments context) before (fun _ => False)
        ⟨depth, .visit closure.body context, ready⟩ := by
  obtain ⟨middle, ends, endsToo⟩ := binds.bound
  have passes : (Eval.ofFault (.ok ())).result before = (.ok (.ok ()), before) := rfl
  unfold conduct
  rw [binds.counted]
  apply Experiment.Meets.bind_later (Experiment.heeds_alone _) passes
  apply Experiment.Meets.bind_later (Experiment.heeds_alone _) (Eval.Ends.lift ends)
  apply Experiment.Meets.bind_later (Experiment.heeds_alone _)
    (Eval.Ends.lift (ends_store middle))
  apply Experiment.Meets.bind_later (Experiment.heeds_alone _) (Eval.Ends.lift endsToo)
  have itself := Moment.meets_self limits ⟨depth, .visit closure.body context, ready⟩
  exact Experiment.Meets.followed itself _

end

theorem ends_finishBody_iff {evaluation : Eval ObjectId} {interrupt : Interrupt} :
    (evaluation.observe >>= finishBody closure).Ends before (.error interrupt) after ↔
      (∀ id, interrupt ≠ .returned id) ∧ evaluation.Ends before (.error interrupt) after := by
  constructor
  · intro ends
    obtain ⟨outcome, middle, ended, finished⟩ := Eval.ends_observe_iff.mp ends
    cases outcome with
    | ok id => cases finished
    | error other =>
        cases other with
        | returned id => cases finished
        | _ =>
            cases finished
            exact ⟨fun _ same => (by cases same), ended⟩
  · rintro ⟨unreturned, ends⟩
    refine (Eval.result_observe_ended ends _).trans ?_
    cases interrupt with
    | returned id => exact absurd rfl (unreturned id)
    | _ => rfl

/-- A function that is executed to an end reports the number of its arguments, or all parameters
are bound. -/
theorem exists_binds_of_ends {outcome : Except Interrupt Slot}
    (ends : (conduct self function closure arguments context).Ends before outcome after) :
    (∃ fault, outcome = .error (.failed fault)) ∨
      ∃ ready, Binds function closure arguments context before ready := by
  unfold conduct at ends
  cases counted : checkCount closure.name function closure.parameters arguments with
  | error fault =>
      rw [counted] at ends
      cases ends
      exact .inl ⟨fault, rfl⟩
  | ok _ =>
      rw [counted] at ends
      obtain ⟨_, _, checks, ends⟩ := Eval.ends_bind_iff.mp ends
      cases checks
      obtain ⟨_, middle, binds, ends⟩ := Eval.ends_bind_iff.mp ends
      obtain ⟨_, rfl, bound⟩ := ends_lift_iff.mp binds
      obtain ⟨_, _, reads, ends⟩ := Eval.ends_bind_iff.mp ends
      cases reads
      obtain ⟨_, ready, binds, _⟩ := Eval.ends_bind_iff.mp ends
      obtain ⟨_, rfl, boundToo⟩ := ends_lift_iff.mp binds
      exact .inr ⟨ready, counted, middle, bound, boundToo⟩

theorem checkCount_of_length {parameters : List String}
    (same : parameters.length = arguments.length) :
    checkCount name function parameters arguments = .ok () := by
  unfold checkCount
  rw [same, if_neg (Nat.lt_irrefl _), if_neg (Nat.lt_irrefl _)]

theorem mem_zip_of_getElem? {names : List String} {values : List Slot} {slot : Slot}
    (named : names[place]? = some name) (held : values[place]? = some slot) :
    (name, slot) ∈ names.zip values := by
  obtain ⟨front, split⟩ := zip_split named held
  rw [split]
  exact List.mem_append_right _ List.mem_cons_self

/-- A function is executed although a parameter is left without an object: it ends abnormally, or
reports the number of its arguments. -/
theorem lost_execute (self : Evaluator) (arguments : List ObjectId)
    (payload : function.payload = .function closure) {old : Slot}
    (named : closure.optional[place]? = some name)
    (held : (before.store.defaultValues closure.defaults)[place]? = some old)
    (bare : ∀ id, (givenAt closure.optional place given).getD old ≠ .object id) :
    ∃ last, (execute self function arguments given).result before = (.error .missingPart, last) ∨
      ∃ fault, checkCount closure.name function closure.parameters arguments = .error fault ∧
        (execute self function arguments given).result before =
          (.ok (.error (.failed fault)), last) := by
  cases claimed : function.context with
  | none =>
      exact ⟨before, .inl (crashed_execute payload claimed arguments given)⟩
  | some outer =>
      rw [result_execute payload claimed]
      cases counted : checkCount closure.name function closure.parameters arguments with
      | error fault =>
          refine ⟨entering before closure outer given, .inr ⟨fault, rfl, ?_⟩⟩
          unfold conduct
          rw [counted]
          rfl
      | ok _ =>
          have here : Context.table (callFrame before function closure :: outer) =
              some ⟨before.store.tables.size⟩ := rfl
          have slot : ((entering before closure outer given).store.defaultValues
              closure.defaults).toList[place]? =
                some ((givenAt closure.optional place given).getD old) := by
            rw [Array.getElem?_toList, getElem?_entering, held]
            rfl
          obtain ⟨last, crashed⟩ := crashed_conduct self here counted
            (mem_zip_of_getElem? named slot) bare
          exact ⟨last, .inl crashed⟩

end Evaluator

/-! ### The body -/

theorem Store.inside_of_defaultValues {store : Store} {id : DefaultsId} {slot : Slot}
    (held : (store.defaultValues id)[place]? = some slot) : id.index < store.defaults.size := by
  apply Nat.lt_of_not_le
  intro outside
  have none : store.defaultValues id = #[] := Heap.read_of_le outside
  rw [none] at held
  cases held

open Evaluator

section

variable {limits : Limits} {depth : Nat} {before : Machine} {function : Object}
  {arguments : List ObjectId} {given : List (String × Slot)} {closure : Closure}

theorem Moment.Opens.binds {body : Moment}
    (opens : Opens limits ⟨depth, .execution function arguments given, before⟩ body)
    (payload : function.payload = .function closure) :
    ∃ outer ready, function.context = some outer ∧
      Binds function closure arguments (callFrame before function closure :: outer)
        (entering before closure outer given) ready ∧
      body = ⟨depth, .visit closure.body (callFrame before function closure :: outer), ready⟩ := by
  obtain ⟨outer, claimed, conducted⟩ := meets_callFunction payload opens.meets opens.other
  obtain ⟨ready, binds, inBody⟩ := meets_conduct conducted
  -- All that the body leads to is nested deeper.
  rcases inBody.nested with itself | deeper
  · exact ⟨outer, ready, claimed, binds, itself⟩
  · exact absurd opens.level (Nat.ne_of_lt deeper)

theorem Evaluator.Binds.opens {outer : Context} {ready : Machine}
    (binds : Binds function closure arguments (callFrame before function closure :: outer)
      (entering before closure outer given) ready)
    (payload : function.payload = .function closure) (claimed : function.context = some outer) :
    Moment.Opens limits ⟨depth, .execution function arguments given, before⟩
      ⟨depth, .visit closure.body (callFrame before function closure :: outer), ready⟩ := by
  refine ⟨?_, rfl, fun same => by cases same⟩
  refine Experiment.Meets.entered ?_ not_false
  change Experiment.Meets (fun halts => execute (halts.perform limits depth).evaluator function
    arguments given) before _ _
  unfold execute
  rw [payload]
  apply Experiment.Meets.bind_later (Experiment.heeds_alone _)
    (Eval.Ends.lift (ends_callContext closure.name claimed before))
  exact Experiment.Meets.bind_later (Experiment.heeds_alone _) (Eval.Ends.lift rfl)
    (binds.meets limits depth)

theorem Moment.Opens.object {body : Moment}
    (opens : Opens limits ⟨depth, .execution function arguments given, before⟩ body)
    (payload : function.payload = .function closure) {old : Slot}
    (named : closure.optional[place]? = some name)
    (held : (before.store.defaultValues closure.defaults)[place]? = some old) :
    ∃ id, (givenAt closure.optional place given).getD old = .object id := by
  obtain ⟨outer, ready, _, binds, _⟩ := opens.binds payload
  obtain ⟨middle, keeps, ends⟩ := binds.optional
  have here : Context.table (callFrame before function closure :: outer) =
      some ⟨before.store.tables.size⟩ := rfl
  have inside : closure.defaults.index <
      (entering before closure outer given).store.defaults.size :=
    Nat.lt_of_lt_of_eq (Store.inside_of_defaultValues held)
      (before.store.defaults.size_modify _ _).symm
  have slot : ((entering before closure outer given).store.defaultValues
      closure.defaults)[place]? = some ((givenAt closure.optional place given).getD old) := by
    rw [getElem?_entering, held]
    rfl
  rw [← keeps.keepsDefaults _ inside, ← Array.getElem?_toList] at slot
  apply Classical.byContradiction
  intro bare
  obtain ⟨after, crashed⟩ := crashed_bindAll here (mem_zip_of_getElem? named slot)
    (fun id same => bare ⟨id, same⟩) middle
  have impossible := ends.symm.trans crashed
  cases impossible

/-- The body of a function comes up if the arguments are as many as the parameters and all optional
parameters have objects. -/
theorem Moment.exists_opens (payload : function.payload = .function closure) {outer : Context}
    (claimed : function.context = some outer)
    (counted : checkCount closure.name function closure.parameters arguments = .ok ())
    (objects : ∀ place name old, closure.optional[place]? = some name →
      (before.store.defaultValues closure.defaults)[place]? = some old →
      ∃ id, (givenAt closure.optional place given).getD old = .object id) :
    ∃ body, Opens limits ⟨depth, .execution function arguments given, before⟩ body := by
  have allObjects : ∀ binding ∈ closure.optional.zip
      ((entering before closure outer given).store.defaultValues closure.defaults).toList,
        ∃ id, binding.2 = .object id := by
    intro binding among
    obtain ⟨place, found⟩ := List.getElem?_of_mem among
    obtain ⟨named, found⟩ := List.getElem?_zip_eq_some.mp found
    rw [Array.getElem?_toList, getElem?_entering] at found
    obtain ⟨old, held, same⟩ := Option.map_eq_some_iff.mp found
    obtain ⟨id, isObject⟩ := objects place _ old named held
    exact ⟨id, same.symm.trans isObject⟩
  have here : Context.table (callFrame before function closure :: outer) =
      some ⟨before.store.tables.size⟩ := rfl
  obtain ⟨ready, binds⟩ : ∃ ready, Binds function closure arguments
      (callFrame before function closure :: outer) (entering before closure outer given) ready :=
    exists_binds here counted allObjects
  exact ⟨_, binds.opens payload claimed⟩

end

open Evaluator in
/-- In the body of a function, an optional parameter is bound to what was given for it last, and
else to its default. -/
theorem Moment.Opens.bound_given {limits : Limits} {depth : Nat} {before : Machine}
    {function : Object} {values : List ObjectId} {given : List (String × Slot)} {closure : Closure}
    {body : Moment} (opens : Opens limits ⟨depth, .execution function values given, before⟩ body)
    (payload : function.payload = .function closure) {old : Slot}
    (named : closure.optional[place]? = some name) (last : name ∉ closure.optional.drop (place + 1))
    (held : (before.store.defaultValues closure.defaults)[place]? = some old) {id : ObjectId}
    (isObject : (givenAt closure.optional place given).getD old = .object id) :
    body.bound? name = some id := by
  have calls : Moment.Calls ⟨depth, .execution function values given, before⟩ closure :=
    ⟨function, values, given, rfl, payload⟩
  obtain ⟨value, latest, bound⟩ := opens.bound (.refl before) calls
    (Store.inside_of_defaultValues held) named last held
  have gives : Moment.gives closure.defaults place
      ⟨depth, .execution function values given, before⟩ =
      givenAt closure.optional place given := by
    unfold Moment.gives
    dsimp only
    rw [payload]
    exact if_pos rfl
  rw [DefaultsId.latest_snoc, gives] at latest
  have same := isObject.symm.trans latest
  cases same
  exact bound

open Evaluator in
theorem exists_opens_of_name (limits : Limits) (depth : Nat) {before : Machine} {context : Context}
    {table : TableId} (here : context.table = some table) {named : ObjectId}
    (found : before.store.lookup table name = some named) {closure : Closure}
    (payload : (before.store.object named).payload = .function closure)
    (parameters : closure.parameters = []) (optional : closure.optional = []) (place span : Span) :
    ∃ called function ready body,
      Addresses (atDepth limits (depth + 1)) context span (.access place name none) [] before called
        function [] ready ∧
      function.payload = .function closure ∧
      Moment.Opens limits ⟨depth + 1, .execution function [] [], ready⟩ body := by
  have value : before.store.IsValue named := congrArg Payload.isKind payload
  obtain ⟨called, ready, addresses⟩ := addresses_of_name limits depth here found value place span
  have count : closure.parameters.length = ([] : List ObjectId).length := by
    rw [parameters]
    rfl
  let function : Object :=
    { before.store.object named with
      start := some span.start, stop := some span.stop, context := some context }
  have sameClosure : function.payload = .function closure := payload
  obtain ⟨body, opens⟩ : ∃ body, Moment.Opens limits
      ⟨depth + 1, .execution function [] [], ready⟩ body := by
    apply Moment.exists_opens sameClosure rfl (checkCount_of_length count)
    intro place name old parameter
    rw [optional] at parameter
    cases parameter
  exact ⟨called, function, ready, body, addresses, sameClosure, opens⟩

end Lingo
