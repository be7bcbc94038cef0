/-
How a call comes to the execution of a function.

The callee is evaluated first, and a copy of its value is claimed by the call.  Then the arguments
are evaluated in turn, and after them the values given to optional parameters.  The copy is out of
reach of all of them, so the function that is executed is the one to which the callee came.
-/

import Lingo.Proofs.Eval.Confinement
import Lingo.Proofs.Eval.Elements

namespace Lingo

namespace Experiment

variable {α β : Type} {before : Machine} {avoided : Moment → Prop} {moment : Moment}

theorem Meets.after_part {first : Experiment α} {next : α → Experiment β} (heeds : first.Heeds)
    (unmet : ¬first.Meets before avoided moment)
    (meets : Meets (fun halts => first halts >>= fun a => next a halts) before avoided moment) :
    ∃ a middle, (first .nowhere).result before = (.ok (.ok a), middle) ∧
      (next a).Meets middle avoided moment := by
  rw [bind_eq_followed] at meets
  rcases meets.cases_followed heeds with inFirst | ⟨outcome, middle, _, ended, inNext⟩
  · exact absurd inFirst unmet
  · cases outcome with
    | ok a => exact ⟨a, middle, ended, inNext⟩
    | error interrupt => exact absurd inNext (not_meets_alone _)

end Experiment

theorem Orderly.deeper_of_isCall {α : Type} {policy : Policy} {evaluation : Helper → Eval α}
    (orderly : Orderly policy evaluation)
    (visits : ∀ function arguments given, ¬policy.asks (.execution function arguments given))
    {limits : Limits} {depth : Nat} {before : Machine} {moment : Moment}
    (meets : Experiment.Meets (fun halts => evaluation (halts.perform limits depth)) before
      (fun _ => False) moment) (isCall : moment.isCall) : moment.depth < depth := by
  obtain ⟨job, _, asks, met⟩ := orderly.exists_asked meets
  cases job with
  | execution function arguments given => exact absurd asks (visits function arguments given)
  | visit script context =>
      rcases Moment.Meets.nested met with itself | deeper
      · rw [itself] at isCall
        cases isCall
      · exact deeper

namespace Evaluator

open Activity

variable {given : List (String × Slot)}

/-! ### Values for optional parameters -/

/-- The values given to optional parameters are evaluated in turn.  All the names are known, and an
evaluation that is interrupted leaves nothing. -/
inductive Supplies (self : Evaluator) (context : Context) (known : List String) :
    List (String × Script) → Machine → List (String × Slot) → Machine → Prop where
  | nil (machine : Machine) : Supplies self context known [] machine [] machine
  | cons {name : String} {value : Script} {rest : List (String × Script)}
      {before middle after : Machine} {outcome : Except Interrupt ObjectId}
      {given : List (String × Slot)} (among : name ∈ known)
      (ends : (self value context).Ends before outcome middle)
      (others : Supplies self context known rest middle given after) :
      Supplies self context known ((name, value) :: rest) before
        ((name, settled outcome) :: given) after

variable {self : Evaluator} {context : Context} {known : List String}
  {optional : List (String × Script)} {before ready after : Machine}

/-- Known names first: their values are evaluated, and then it goes on with the others. -/
theorem Supplies.result {front : List (String × Script)}
    (supplies : Supplies self context known front before given after)
    (back : List (String × Script)) {β : Type} (next : List (String × Slot) → Eval β) :
    (givenValues self context known (front ++ back) >>= next).result before =
      (givenValues self context known back >>= fun rest => next (given ++ rest)).result after := by
  induction supplies generalizing next with
  | nil machine => rfl
  | @cons name value rest before middle after outcome given among ends others ih =>
      have opened : givenValues self context known ((name, value) :: rest ++ back) >>= next =
          (self value context).observe >>= fun outcome =>
            givenValues self context known (rest ++ back) >>= fun values =>
              next ((name, settled outcome) :: values) := by
        rw [List.cons_append]
        change (if name ∈ known then _ else _) >>= next = _
        rw [if_pos among]
        simp only [bind_assoc, pure_bind]
      rw [opened, Eval.result_observe_ended ends]
      exact ih fun values => next ((name, settled outcome) :: values)

theorem Supplies.all_known (supplies : Supplies self context known optional before given after) :
    ∀ parameter ∈ optional, parameter.1 ∈ known := by
  induction supplies with
  | nil machine => exact List.forall_mem_nil _
  | cons among _ _ ih => exact List.forall_mem_cons.mpr ⟨among, ih⟩

theorem ends_of_supplies (supplies : Supplies self context known optional before given after) :
    (givenValues self context known optional).Ends before (.ok given) after := by
  have supplied := supplies.result [] pure
  rw [List.append_nil, bind_pure] at supplied
  have none : givenValues self context known [] = pure [] := rfl
  rw [none, pure_bind, List.append_nil] at supplied
  exact supplied

theorem supplies_of_givenValues
    (ends : (givenValues self context known optional).Ends before (.ok given) after) :
    Supplies self context known optional before given after := by
  induction optional generalizing before given with
  | nil =>
      cases ends
      exact .nil _
  | cons parameter rest ih =>
      obtain ⟨name, value⟩ := parameter
      unfold givenValues at ends
      split at ends
      next among =>
        obtain ⟨outcome, middle, ended, others⟩ := Eval.ends_observe_iff.mp ends
        obtain ⟨reached, last, starts, made⟩ := Eval.ends_bind_iff.mp others
        cases reached with
        | error interrupt => cases made
        | ok tail =>
            obtain ⟨same, rfl⟩ := Eval.ends_pure_iff.mp made
            cases same
            exact .cons among ended (ih starts)
      next => cases ends

/-! ### The function and its arguments -/

/-- A machine on which a copy of an object was made and claimed by a place. -/
def withCopy (machine : Machine) (id : ObjectId) (span : Span) : Machine :=
  machine.withStore ((machine.store.addObject (machine.store.object id)).2.modifyObject
    ⟨machine.store.objects.size⟩ fun object =>
      { object with start := some span.start, stop := some span.stop })

theorem object_withCopy (machine : Machine) (id : ObjectId) (span : Span) :
    (withCopy machine id span).store.object ⟨machine.store.objects.size⟩ =
      { machine.store.object id with start := some span.start, stop := some span.stop } := by
  unfold withCopy
  dsimp only
  rw [Store.object_modifyObject, Store.object_addObject]
  rw [Store.size_addObject]
  exact Nat.lt_succ_self _

/-- The callee of a call came to a value, and then the arguments came to values in turn. -/
inductive Addresses (self : Evaluator) (context : Context) (span : Span) (callee : Script)
    (arguments : List Script) (before : Machine) : ObjectId → Object → List ObjectId → Machine →
      Prop where
  | intro {id : ObjectId} {visited ready : Machine} {values : List ObjectId}
      (visits : (self callee context).Ends before (.ok id) visited)
      (value : visited.store.IsValue id)
      (evaluates : (arguments.mapM fun argument => self argument context).Ends
        (withCopy visited id span) (.ok values) ready) :
      Addresses self context span callee arguments before ⟨visited.store.objects.size⟩
        { visited.store.object id with start := some span.start, stop := some span.stop } values
        ready

theorem Addresses.unique {span : Span} {callee : Script} {arguments : List Script}
    {called calledToo : ObjectId} {function functionToo : Object}
    {values valuesToo : List ObjectId} {readyToo : Machine}
    (one : Addresses self context span callee arguments before called function values ready)
    (other : Addresses self context span callee arguments before calledToo functionToo valuesToo
      readyToo) :
    called = calledToo ∧ function = functionToo ∧ values = valuesToo ∧ ready = readyToo := by
  cases one with
  | intro visits value evaluates =>
      cases other with
      | intro visitsToo valueToo evaluatesToo =>
          cases visits.symm.trans visitsToo
          cases evaluates.symm.trans evaluatesToo
          exact ⟨rfl, rfl, rfl, rfl⟩

/-- What is left of a call once it has a function and arguments. -/
def finishCall (self : Evaluator) (execute : Executor) (span : Span) (called : ObjectId)
    (values : List ObjectId) (optional : List (String × Script)) (context : Context) :
    Eval ObjectId := do
  let known ← optionalNames (← object called).payload
  let given ← givenValues self context known optional
  let result ← execute (← object called) values given
  retrieve span context (← objectAt result)

variable {span : Span} {callee : Script} {arguments : List Script} {called : ObjectId}
  {function : Object} {values : List ObjectId}

theorem Addresses.result
    (addresses : Addresses self context span callee arguments before called function values ready)
    (execute : Executor) (optional : List (String × Script)) :
    (callValue self execute span callee arguments optional context).result before =
      (finishCall self execute span called values optional context).result ready := by
  cases addresses with
  | intro visits value evaluates =>
      unfold callValue
      rw [Eval.result_bind_ended visits, Eval.result_bind_ended (Eval.Ends.lift (ends_copy value))]
      exact Eval.result_bind_ended evaluates _

theorem result_finishCall
    (names : (optionalNames (ready.store.object called).payload).Ends ready known ready)
    (supplies : Supplies self context known optional ready given after) (execute : Executor)
    (span : Span) (values : List ObjectId) :
    (finishCall self execute span called values optional context).result ready =
      (execute (after.store.object called) values given >>= fun result => do
        retrieve span context (← objectAt result)).result after := by
  unfold finishCall
  rw [Eval.result_bind_ended (Eval.Ends.lift (ends_object called ready)),
    Eval.result_bind_ended (Eval.Ends.lift names)]
  have supplied : ∀ next : List (String × Slot) → Eval ObjectId, _ := supplies.result []
  have none : givenValues self context known [] = pure [] := rfl
  rw [List.append_nil] at supplied
  rw [supplied, none, pure_bind, List.append_nil]
  exact Eval.result_bind_ended (Eval.Ends.lift (ends_object called after)) _

theorem eq_of_still {α : Type} {activity : Activity α} {a : α} (still : activity.Within .still)
    (ends : activity.Ends before a after) : before = after := by
  have same := still before
  rw [ends] at same
  exact same

theorem isValue_of_copy {id copied : ObjectId} (ends : (copy id).Ends before copied after) :
    before.store.IsValue id := by
  unfold Store.IsValue
  unfold copy at ends
  have ended := (run_bind_ended (ends_object id before) _).symm.trans ends
  cases known : (before.store.object id).payload with
  | plain =>
      rw [known] at ended
      cases ended
  | bodiless name =>
      rw [known] at ended
      cases ended
  | _ => rfl

/-! ### The function is out of reach -/

section

variable {limits : Limits} {depth : Nat} {start : Machine} {hidden : ObjectId → Prop}

theorem confines_of_ends (hides : start.Hides hidden) (confines : start.Confines hidden before)
    {script : Script} {outcome : Except Interrupt ObjectId}
    (ends : (atDepth limits depth script context).Ends before outcome after) :
    start.Confines hidden after :=
  have stays := Realm.loyal_confined hides limits depth script context before
    (Realm.admits_confined before context)
  (Activity.Stays.keeps stays confines ends).holds

theorem Supplies.confines (hides : start.Hides hidden) (confines : start.Confines hidden before)
    (supplies : Supplies (atDepth limits depth) context known optional before given after) :
    start.Confines hidden after := by
  induction supplies with
  | nil machine => exact confines
  | cons among ends others ih => exact ih (confines_of_ends hides confines ends)

/-- The function that a call executes is the value of the callee, claimed by the call, whatever the
arguments do. -/
theorem Addresses.kept (whole : before.Whole)
    (addresses : Addresses (atDepth limits depth) context span callee arguments before called
      function values ready)
    (supplies : Supplies (atDepth limits depth) context known optional ready given after) :
    after.store.object called = function := by
  cases addresses with
  | @intro id visited ready values visits value evaluates =>
      have visitedWhole := whole.of_confines (confines_of_ends whole.hides whole.confines visits)
      obtain ⟨hides, confines⟩ : (withCopy visited id span).Hides
          (· = ⟨visited.store.objects.size⟩) ∧ (withCopy visited id span).Confines
            (· = ⟨visited.store.objects.size⟩) (withCopy visited id span) := by
        refine visitedWhole.hides_new ?_ rfl
        exact (Store.size_modifyObject ..).trans (Store.size_addObject ..)
      have kept := Activity.Stays.keeps (stays_values (Realm.loyal_confined hides limits depth)
        (Realm.admits_confined _ context)) confines evaluates
      have confined := supplies.confines hides kept.holds
      exact (confined.kept _ rfl).trans (object_withCopy visited id span)

end

/-! ### The course of a call -/

theorem orderly_arguments (arguments : List Script) (context : Context) :
    Orderly (.executing False fun _ => True) fun helper =>
      arguments.mapM fun argument => helper.evaluator argument context :=
  .mapM fun _ _ => .visit trivial

theorem orderly_given (known : List String) (optional : List (String × Script))
    (context : Context) :
    Orderly (.executing False fun _ => True) fun helper =>
      givenValues helper.evaluator context known optional :=
  orderly_givenValues known (fun strict => strict.elim) fun _ _ => trivial

theorem evaluator_nowhere (limits : Limits) (depth : Nat) :
    (Halts.nowhere.perform limits depth).evaluator = atDepth limits depth := by
  funext script context
  exact Halts.perform_nowhere limits depth (.visit script context)

theorem meets_call {limits : Limits} {depth : Nat} {call : Moment}
    (meets : Moment.Meets limits ⟨depth + 1, .visit (.call span callee arguments optional) context,
      before⟩ call) (isCall : call.isCall) (level : call.depth = depth) :
    ∃ called function values ready known given,
      Addresses (atDepth limits depth) context span callee arguments before called function values
        ready ∧
      (optionalNames (ready.store.object called).payload).Ends ready known ready ∧
      Supplies (atDepth limits depth) context known optional ready given call.machine ∧
      call.job = .execution (call.machine.store.object called) values given := by
  have shallow : ¬call.depth < depth := Nat.not_lt_of_le (Nat.le_of_eq level.symm)
  have visitsOnly : ∀ function arguments given,
      ¬(Policy.executing False fun _ => True).asks (.execution function arguments given) :=
    fun _ _ _ asked => asked
  rcases Experiment.Meets.cases_entered meets with itself | ⟨_, inside⟩
  · rw [itself] at isCall
    cases isCall
  · change Experiment.Meets (fun halts => callValue (halts.perform limits depth).evaluator
      (halts.perform limits depth).executor span callee arguments optional context) before _ call
        at inside
    unfold callValue at inside
    -- The callee.
    have orderlyCallee : Orderly (.executing False fun _ => True) fun helper =>
        helper.evaluator callee context := .visit trivial
    obtain ⟨id, visited, visits, afterCallee⟩ := inside.after_part
      (Halts.heeds_perform limits depth (.visit callee context)) fun met =>
        shallow (orderlyCallee.deeper_of_isCall visitsOnly met isCall)
    rw [Halts.perform_nowhere] at visits
    obtain ⟨called, copied, copies, afterCopy⟩ := afterCallee.after_alone
    have value := isValue_of_copy (ends_of_lift copies)
    have same := (Eval.Ends.lift (ends_copy value)).symm.trans copies
    cases same
    obtain ⟨_, placed, places, afterPlace⟩ := afterCopy.after_alone
    cases places
    -- The arguments.
    have inOrder := orderly_arguments arguments context
    obtain ⟨values, ready, evaluates, afterArguments⟩ := afterPlace.after_part
      (inOrder.heeds _ fun job _ => Halts.heeds_perform limits depth job) fun met =>
        shallow (inOrder.deeper_of_isCall visitsOnly met isCall)
    obtain ⟨_, _, subject, afterSubject⟩ := afterArguments.after_alone
    cases subject
    obtain ⟨known, reading, names, afterNames⟩ := afterSubject.after_alone
    have named := ends_of_lift names
    have still : ready = reading := eq_of_still (within_optionalNames _) named
    subst still
    -- The values for optional parameters.
    have givenInOrder := orderly_given known optional context
    obtain ⟨given, reached, gives, afterGiven⟩ := afterNames.after_part
      (givenInOrder.heeds _ fun job _ => Halts.heeds_perform limits depth job) fun met =>
        shallow (givenInOrder.deeper_of_isCall visitsOnly met isCall)
    obtain ⟨_, _, subject, afterFunction⟩ := afterGiven.after_alone
    cases subject
    have itself : call = ⟨depth, .execution (reached.store.object ⟨visited.store.objects.size⟩)
        values given, reached⟩ := by
      rw [Experiment.bind_eq_followed] at afterFunction
      rcases afterFunction.cases_followed (Halts.heeds_perform limits depth _) with
        executed | ⟨outcome, _, _, _, afterwards⟩
      · rcases executed.cases_entered with itself | ⟨_, within⟩
        · exact itself
        · exact absurd ((orderly_execute _ values given).deeper_of_isCall visitsOnly within isCall)
            shallow
      · cases outcome <;> exact absurd afterwards (Experiment.not_meets_alone _)
    rw [evaluator_nowhere limits depth] at evaluates gives
    subst itself
    exact ⟨_, _, values, ready, known, given, .intro visits value evaluates, named,
      supplies_of_givenValues gives, rfl⟩

theorem Addresses.meets {limits : Limits} {depth : Nat}
    (addresses : Addresses (atDepth limits depth) context span callee arguments before called
      function values ready)
    (names : (optionalNames (ready.store.object called).payload).Ends ready known ready)
    (supplies : Supplies (atDepth limits depth) context known optional ready given after) :
    Moment.Meets limits ⟨depth + 1, .visit (.call span callee arguments optional) context, before⟩
      ⟨depth, .execution (after.store.object called) values given, after⟩ := by
  have heeds : ∀ job, Experiment.Heeds fun halts => halts.perform limits depth job :=
    Halts.heeds_perform limits depth
  have same := evaluator_nowhere limits depth
  cases addresses with
  | @intro id visited _ _ visits value evaluates =>
      rw [← same] at visits evaluates
      have gives := ends_of_supplies supplies
      rw [← same] at gives
      refine Experiment.Meets.entered ?_ not_false
      change Experiment.Meets (fun halts => callValue (halts.perform limits depth).evaluator
        (halts.perform limits depth).executor span callee arguments optional context) before _ _
      unfold callValue
      apply Experiment.Meets.bind_later (heeds (.visit callee context)) visits
      apply Experiment.Meets.bind_later (Experiment.heeds_alone _)
        (Eval.Ends.lift (ends_copy value))
      apply Experiment.Meets.bind_later (Experiment.heeds_alone _) (Eval.Ends.lift rfl)
      apply Experiment.Meets.bind_later
        ((orderly_arguments arguments context).heeds _ fun job _ => heeds job) evaluates
      apply Experiment.Meets.bind_later (Experiment.heeds_alone _)
        (Eval.Ends.lift (ends_object _ ready))
      apply Experiment.Meets.bind_later (Experiment.heeds_alone _) (Eval.Ends.lift names)
      apply Experiment.Meets.bind_later
        ((orderly_given known optional context).heeds _ fun job _ => heeds job) gives
      apply Experiment.Meets.bind_later (Experiment.heeds_alone _)
        (Eval.Ends.lift (ends_object _ after))
      rw [Experiment.bind_eq_followed]
      exact Experiment.meets_entered_self.followed _

section

variable {limits : Limits} {depth : Nat} {closure : Closure} {given : List (String × Slot)}
  (whole : before.Whole)
  (addresses : Addresses (atDepth limits depth) context span callee arguments before called function
    values ready)
  (payload : function.payload = .function closure)
include whole addresses payload

theorem Addresses.names :
    (optionalNames (ready.store.object called).payload).Ends ready closure.optional ready := by
  have none : Supplies (atDepth limits depth) context closure.optional [] ready [] ready :=
    .nil ready
  rw [addresses.kept whole none, payload]
  rfl

variable
  (supplies : Supplies (atDepth limits depth) context closure.optional optional ready given after)
include supplies

theorem Addresses.executes :
    Moment.Meets limits ⟨depth + 1, .visit (.call span callee arguments optional) context, before⟩
      ⟨depth, .execution function values given, after⟩ := by
  have meets := addresses.meets (addresses.names whole payload) supplies
  rw [addresses.kept whole supplies] at meets
  exact meets

theorem Addresses.result_executed :
    (atDepth limits (depth + 1) (.call span callee arguments optional) context).result before =
      (execute (atDepth limits depth) function values given >>= fun result => do
        retrieve span context (← objectAt result)).result after := by
  have names := addresses.names whole payload
  rw [← addresses.kept whole supplies]
  exact (addresses.result _ optional).trans (result_finishCall names supplies _ span values)

end

/-- Whoever calls a value by its name calls a copy of it that is claimed by the context of the
caller. -/
theorem addresses_of_name (limits : Limits) (depth : Nat) {table : TableId}
    (here : context.table = some table) {name : String} {named : ObjectId}
    (found : before.store.lookup table name = some named) (value : before.store.IsValue named)
    (place span : Span) :
    ∃ called ready, Addresses (atDepth limits (depth + 1)) context span (.access place name none) []
      before called
      { before.store.object named with
        start := some span.start, stop := some span.stop, context := some context } [] ready := by
  obtain ⟨copied, visited, retrieves, object⟩ := ends_retrieve value place context
  have looks : (lookup context name).Ends before (some named) before := by
    unfold lookup tableOf
    rw [here, ← found]
    rfl
  have visits : (atDepth limits (depth + 1) (.access place name none) context).Ends before
      (.ok copied) visited :=
    Eval.Ends.bind (Eval.Ends.lift looks) (Eval.Ends.lift retrieves)
  have valueToo : visited.store.IsValue copied := by
    unfold Store.IsValue
    rw [object]
    exact value
  have addresses : Addresses (atDepth limits (depth + 1)) context span (.access place name none) []
      before _ _ [] _ := .intro visits valueToo rfl
  rw [object] at addresses
  exact ⟨_, _, addresses⟩

end Evaluator

end Lingo
