/-
What becomes of the values given to optional parameters.

If all names are known, the function is executed whatever became of the values: a fault in one of
them is lost, and the parameter is left with nothing, so that the call ends abnormally when its
parameters are bound.  Only if all of them came to values is the body evaluated, with the
parameters bound to them.
-/

import Lingo.Proofs.Eval.Bodies

namespace Lingo

namespace Evaluator

variable {given : List (String × Slot)}

/-! ### What is given last -/

section

variable {names : List String} {name : String} {place : Nat}
  (found : names.findIdx? (· = name) = some place)

include found

theorem findIdx?_name : names[place]? = some name := by
  obtain ⟨inside, same, _⟩ := List.findIdx?_eq_some_iff_getElem.mp found
  rw [List.getElem?_eq_getElem inside]
  exact congrArg some (of_decide_eq_true same)

theorem givenAt_away (away : name ∉ given.map (·.1)) : givenAt names place given = none := by
  induction given with
  | nil => rfl
  | cons pair rest ih =>
      have different : names.findIdx? (· = pair.1) ≠ some place := by
        intro here
        have same := (findIdx?_name found).symm.trans (findIdx?_name here)
        apply away
        rw [Option.some.inj same]
        exact List.mem_cons_self
      have others : givenAt names place rest = none :=
        ih fun among => away (List.mem_cons_of_mem _ among)
      unfold givenAt
      rw [others, if_neg different]
      rfl

theorem givenAt_last (front : List (String × Slot)) (slot : Slot) {back : List (String × Slot)}
    (last : name ∉ back.map (·.1)) :
    givenAt names place (front ++ (name, slot) :: back) = some slot := by
  induction front with
  | nil =>
      change (givenAt names place back).or _ = _
      rw [givenAt_away found last, if_pos found]
      rfl
  | cons pair rest ih =>
      change (givenAt names place (rest ++ (name, slot) :: back)).or _ = _
      rw [ih]
      rfl

end

variable {self : Evaluator} {context : Context} {known : List String}
  {before middle after : Machine}

theorem Supplies.append {front back : List (String × Script)} {others : List (String × Slot)}
    (first : Supplies self context known front before given middle)
    (second : Supplies self context known back middle others after) :
    Supplies self context known (front ++ back) before (given ++ others) after := by
  induction first with
  | nil machine => exact second
  | cons among ends _ ih => exact .cons among ends (ih second)

theorem Supplies.names {optional : List (String × Script)}
    (supplies : Supplies self context known optional before given after) :
    given.map (·.1) = optional.map (·.1) := by
  induction supplies with
  | nil machine => rfl
  | cons _ _ _ ih => exact congrArg (_ :: ·) ih

/-! ### Calls -/

variable {span : Span} {callee : Script} {arguments : List Script} {ready : Machine}
  {called : ObjectId} {function : Object} {values : List ObjectId}

/-- A name that is not known makes a call end abnormally, once the values before it are
evaluated. -/
theorem Addresses.crashed
    (addresses : Addresses self context span callee arguments before called function values ready)
    (names : (optionalNames (ready.store.object called).payload).Ends ready known ready)
    {front : List (String × Script)}
    (supplies : Supplies self context known front ready given after) {name : String}
    (unknown : name ∉ known) (value : Script) (back : List (String × Script)) (execute : Executor) :
    (callValue self execute span callee arguments (front ++ (name, value) :: back)
      context).result before = (.error .missingPart, after) := by
  have refused : givenValues self context known ((name, value) :: back) =
      liftM (Activity.crash .missingPart : Activity (List (String × Slot))) := if_neg unknown
  rw [addresses.result]
  unfold finishCall
  rw [Eval.result_bind_ended (Eval.Ends.lift (Activity.ends_object called ready)),
    Eval.result_bind_ended (Eval.Ends.lift names), supplies.result, refused]
  exact result_lift_crashed rfl _

end Evaluator

open Evaluator in
/-- Values for optional parameters are not checked.  Let the callee of a call have come to a script
function, and its arguments to values.  If a name is not that of an optional parameter, the call
ends abnormally once the values before it are evaluated, and the function is not executed.  If all
names are known, the function is executed.  A value that is interrupted, by a fault or otherwise, is
passed over: unless the same parameter is given another value after it, the body does not come up,
and the call ends abnormally or reports the number of its arguments.  If all optional parameters
have objects and the arguments are as many as the parameters, then the body comes up, with each
optional parameter bound to what was given for it last, or else to its default. -/
theorem optional_values_are_not_checked (limits : Limits) (depth : Nat) {avoided : Moment → Prop}
    {before : Machine} (reached : Machine.Reached limits avoided before) {context : Context}
    {span : Span} {callee : Script} {arguments : List Script} {called : ObjectId}
    {function : Object} {values : List ObjectId} {ready : Machine}
    (addresses : Addresses (atDepth limits depth) context span callee arguments before called
      function values ready) {closure : Closure} (payload : function.payload = .function closure) :
    let call (optional : List (String × Script)) : Moment :=
      ⟨depth + 1, .visit (.call span callee arguments optional) context, before⟩
    let result (optional : List (String × Script)) :=
      (atDepth limits (depth + 1) (.call span callee arguments optional) context).result before
    let supplies := Supplies (atDepth limits depth) context closure.optional
    (∀ front name value back given after, supplies front ready given after →
      name ∉ closure.optional →
      result (front ++ (name, value) :: back) = (.error .missingPart, after) ∧
        ∀ moment, (call (front ++ (name, value) :: back)).Meets limits moment → moment.isCall →
          moment.depth ≠ depth) ∧
    (∀ front name value back earlier middle interrupt failed later after place old,
      supplies front ready earlier middle →
      (atDepth limits depth value context).Ends middle (.error interrupt) failed →
      supplies back failed later after →
      closure.optional.findIdx? (· = name) = some place → name ∉ back.map (·.1) →
      (after.store.defaultValues closure.defaults)[place]? = some old →
      let optional := front ++ (name, value) :: back
      let execution : Moment :=
        ⟨depth, .execution function values (earlier ++ (name, .nothing) :: later), after⟩
      (call optional).Meets limits execution ∧ (∀ body, ¬execution.Opens limits body) ∧
        ∃ last, result optional = (.error .missingPart, last) ∨
          ∃ fault, checkCount closure.name function closure.parameters values = .error fault ∧
            result optional = (.ok (.error (.failed fault)), last)) ∧
    ∀ optional given after outer, supplies optional ready given after →
      function.context = some outer → closure.parameters.length = values.length →
      (∀ place name old, closure.optional[place]? = some name →
        (after.store.defaultValues closure.defaults)[place]? = some old →
        ∃ id, (givenAt closure.optional place given).getD old = .object id) →
      let execution : Moment := ⟨depth, .execution function values given, after⟩
      (call optional).Meets limits execution ∧ ∃ body, execution.Opens limits body ∧
        ∀ place name old id, closure.optional[place]? = some name →
          name ∉ closure.optional.drop (place + 1) →
          (after.store.defaultValues closure.defaults)[place]? = some old →
          (givenAt closure.optional place given).getD old = .object id →
          body.bound? name = some id := by
  intro call result supplies
  have names := addresses.names reached.whole payload
  refine ⟨?_, ?_, ?_⟩
  · intro front name value back given after supplied unknown
    refine ⟨addresses.crashed names supplied unknown value back _, ?_⟩
    intro moment meets isCall level
    obtain ⟨_, _, _, _, _, _, addressesToo, namesToo, suppliedToo, _⟩ :=
      meets_call meets isCall level
    obtain ⟨rfl, rfl, rfl, rfl⟩ := addresses.unique addressesToo
    cases names.symm.trans namesToo
    exact unknown (suppliedToo.all_known _ (List.mem_append_right _ List.mem_cons_self))
  · intro front name value back earlier middle interrupt failed later after place old suppliesFront
      interrupted suppliesBack found last held optional execution
    have named := findIdx?_name found
    have supplied : supplies optional ready (earlier ++ (name, .nothing) :: later) after :=
      suppliesFront.append (.cons (List.mem_of_getElem? named) interrupted suppliesBack)
    have lastToo : name ∉ later.map (·.1) := by
      rw [suppliesBack.names]
      exact last
    -- Nothing is given for the parameter after the interruption, so it stays with nothing.
    have nothing := givenAt_last found earlier .nothing lastToo
    have bare : ∀ id, (givenAt closure.optional place
        (earlier ++ (name, .nothing) :: later)).getD old ≠ .object id := by
      intro id isObject
      rw [nothing] at isObject
      cases isObject
    refine ⟨addresses.executes reached.whole payload supplied, ?_, ?_⟩
    · intro body opens
      obtain ⟨id, isObject⟩ := opens.object payload named held
      exact bare id isObject
    · have comesTo := addresses.result_executed reached.whole payload supplied
      obtain ⟨reachedToo, crashed | ⟨fault, miscounted, failed⟩⟩ :=
        lost_execute (atDepth limits depth) values payload named held bare
      · refine ⟨reachedToo, .inl (comesTo.trans ?_)⟩
        rw [Eval.bind_eq_observe]
        exact Eval.result_observe_crashed crashed _
      · refine ⟨reachedToo, .inr ⟨fault, miscounted, comesTo.trans ?_⟩⟩
        rw [Eval.bind_eq_observe]
        exact Eval.result_observe_ended failed _
  · intro optional given after outer supplied claimed count objects execution
    obtain ⟨body, opens⟩ := Moment.exists_opens payload claimed (checkCount_of_length count) objects
    refine ⟨addresses.executes reached.whole payload supplied, body, opens, ?_⟩
    intro place name old id named last held isObject
    exact opens.bound_given payload named last held isObject

/-- A call of a function with one optional parameter that gives a value to another one. -/
theorem optional_values_are_not_checked_unknown :
    let before := Machine.afterText "func f(a = 1) -> a"
    let context := Evaluator.outermost before
    let callee : Script := .access default "f" none
    ∃ called function ready closure,
      Evaluator.Addresses (Evaluator.atDepth .standard 1) context default callee [] before called
        function [] ready ∧
      function.payload = .function closure ∧ closure.optional = ["a"] ∧
      (Evaluator.atDepth .standard 2 (.call default callee [] [("b", .number default (.int 2))])
        context).result before = (.error .missingPart, ready) := by
  have reached := Machine.reached_afterText "func f(a = 1) -> a"
  have found : (Machine.afterText "func f(a = 1) -> a").store.lookup
      (Machine.afterText "func f(a = 1) -> a").globals "f" = some ⟨37⟩ := by decide +kernel
  have named : ((Machine.afterText "func f(a = 1) -> a").store.object ⟨37⟩).payload.closure?.map
      (·.optional) = some ["a"] := by decide +kernel
  generalize Machine.afterText "func f(a = 1) -> a" = machine at *
  intro before context callee
  cases known : (before.store.object ⟨37⟩).payload with
  | function closure =>
      rw [known] at named
      have names : closure.optional = ["a"] := Option.some.inj named
      have value : before.store.IsValue ⟨37⟩ := congrArg Payload.isKind known
      have here : context.table = some before.globals := rfl
      obtain ⟨called, ready, addresses⟩ :=
        Evaluator.addresses_of_name .standard 0 here found value default default
      have unknown : "b" ∉ closure.optional := by
        rw [names]
        decide
      obtain ⟨crashes, _⟩ := (optional_values_are_not_checked .standard 1 reached addresses
        known).1 [] "b" (.number default (.int 2)) [] [] ready (.nil ready) unknown
      exact ⟨called, _, ready, closure, addresses, known, names, crashes⟩
  | _ =>
      rw [known] at named
      cases named

/-- Neither an unknown name nor a fault in a value is reported. -/
theorem optional_values_end_calls_abnormally :
    let before := Machine.afterText "func f(a = 1) -> a"
    let crash (text : String) : Option Crash :=
      match (Machine.run .standard { name := "<stdin>", text } "").run.run before with
      | (.error cause, _) => some cause
      | _ => none
    crash "f(b = 2)" = some .missingPart ∧ crash "f(a = 1 / 0)" = some .missingPart := by
  decide +kernel

end Lingo
