/-
The calls in the course of an evaluation.

Functions are executed one after the other or one inside the other.  Each call begins with a
new symbol table, so the number of tables puts the calls in order.  What each call and all
other activities keep true of the calls so far and of the machine is true at every call.
-/

import Lingo.Proofs.Eval.Moments

namespace Lingo

/-! ### Entering a call -/

/-- A call has been entered: there is one more table, and the values given to optional parameters
of a script function have been put in the place of its defaults. -/
inductive Entered (function : Object) (given : List (String × Slot)) (before : Machine) :
    Machine → Prop where
  | script {closure : Closure} (known : function.payload = .function closure) (table : Table) :
      Entered function given before
        { before with
          store := (before.store.addTable table).2.modifyDefaults closure.defaults
            (Evaluator.overrideDefaults closure.optional given) }
  | builtin {name : String} (known : function.payload = .builtin name) (table : Table) :
      Entered function given before { before with store := (before.store.addTable table).2 }

theorem Entered.more_tables {function : Object} {given : List (String × Slot)}
    {before middle : Machine} (entered : Entered function given before middle) :
    before.store.tables.size < middle.store.tables.size := by
  have grown : ∀ table, before.store.tables.size < (before.store.addTable table).2.tables.size :=
    fun table => before.store.tables.lt_size_push table
  cases entered with
  | script known table => exact grown table
  | builtin known table => exact grown table

namespace Evaluator

/-- An execution has no place in a context and ends abnormally, or it enters a call and goes on
with what at most grows the store and evaluates trees. -/
theorem execute_enters (function : Object) (arguments : List ObjectId)
    (given : List (String × Slot)) (before : Machine) :
    (∀ self, (execute self function arguments given).result before =
      (.error .missingPart, before)) ∨
      ∃ middle rest, Entered function given before middle ∧ Orderly .loading rest ∧
        ∀ helper : Helper, (execute helper.evaluator function arguments given).result before =
          (rest helper).result middle := by
  cases payload : function.payload with
  | function closure =>
      unfold execute
      rw [payload]
      cases known : function.context with
      | none =>
          left
          intro self
          unfold callFunction callContext
          rw [known]
          rfl
      | some outer =>
          right
          have ended := Eval.Ends.lift (ends_callContext closure.name known before)
          have conducted : ∀ context, Orderly (.entered False (fun _ => True) context)
              fun helper => conduct helper.evaluator function closure arguments context :=
            fun context => orderly_conduct function trivial arguments
          refine ⟨_, _, .script payload _, (conducted _).mono (fun _ _ keeps => keeps.toGrows)
            ?_ id, fun helper => (Eval.result_bind_ended ended _).trans rfl⟩
          intro job asked
          cases job with
          | visit script inner => trivial
          | execution _ _ _ => exact asked
  | builtin name =>
      unfold execute
      rw [payload]
      cases known : function.context with
      | none =>
          left
          intro self
          unfold callBuiltin callContext
          rw [known]
          rfl
      | some outer =>
          right
          have ended := Eval.Ends.lift (ends_callContext name known before)
          exact ⟨_, _, .builtin payload _, orderly_serve_loading function name arguments _,
            fun helper => Eval.result_bind_ended ended _⟩
  | _ =>
      left
      intro self
      unfold execute
      rw [payload]
      rfl

end Evaluator

/-! ### Traces -/

def Moment.isCall (moment : Moment) : Bool :=
  match moment.job with
  | .visit _ _ => false
  | .execution _ _ _ => true

namespace Experiment

variable {α β : Type} {holds : List Moment → Machine → Prop} {before middle : Machine}

/-- The calls that are met, in order, and what holds of them and of the machine on the way. -/
structure Traced (holds : List Moment → Machine → Prop) (experiment : Experiment α)
    (before : Machine) (calls : List Moment) : Prop where
  isCall : ∀ call ∈ calls, call.isCall
  met : ∀ call ∈ calls, experiment.Meets before (fun _ => False) call
  all : ∀ moment, experiment.Meets before (fun _ => False) moment → moment.isCall → moment ∈ calls
  ordered : calls.Pairwise fun earlier later => experiment.Meets before (· = later) earlier
  /-- No call comes before the tables that are there at the start. -/
  since : ∀ call ∈ calls, before.store.tables.size ≤ call.machine.store.tables.size
  /-- At the end each call has left a table. -/
  finished : ∀ outcome after, (experiment .nowhere).result before = (.ok outcome, after) →
    before.store.tables.size ≤ after.store.tables.size ∧
      ∀ call ∈ calls, call.machine.store.tables.size < after.store.tables.size
  reached : ∀ history, holds history before → ∀ earlier call later,
    calls = earlier ++ call :: later → holds (history ++ earlier) call.machine
  left : ∀ history, holds history before → ∀ outcome after,
    (experiment .nowhere).result before = (.ok outcome, after) → holds (history ++ calls) after

theorem traced_alone {evaluation : Eval α} (within : evaluation.Within .growth)
    (keeps : ∀ history before after, before.store.Grows after.store → holds history before →
      holds history after) :
    Traced holds (fun _ => evaluation) before [] := by
  have grows : ∀ outcome after, evaluation.result before = (.ok outcome, after) →
      before.store.Grows after.store := by
    intro outcome after ended
    have touched := within before
    unfold Eval.result at ended
    rw [ended] at touched
    exact touched
  constructor
  case isCall => exact fun _ among => absurd among List.not_mem_nil
  case met => exact fun _ among => absurd among List.not_mem_nil
  case all => exact fun _ meets => absurd meets (not_meets_alone evaluation)
  case ordered => exact .nil
  case since => exact fun _ among => absurd among List.not_mem_nil
  case finished =>
    intro outcome after ended
    exact ⟨(grows outcome after ended).tables, fun _ among => absurd among List.not_mem_nil⟩
  case reached =>
    intro history _ earlier call later split
    have impossible := congrArg List.length split
    simp at impossible
  case left =>
    intro history held outcome after ended
    rw [List.append_nil]
    exact keeps history before after (grows outcome after ended) held

theorem split_append {earlier later first second : List Moment} {call : Moment}
    (split : first ++ second = earlier ++ call :: later) :
    (∃ rest, first = earlier ++ call :: rest) ∨
      ∃ front, earlier = first ++ front ∧ second = front ++ call :: later := by
  rcases List.append_eq_append_iff.mp split with ⟨front, begins, ends⟩ | ⟨rest, begins, ends⟩
  · exact .inr ⟨front, begins, ends⟩
  · cases rest with
    | nil =>
        right
        refine ⟨[], ?_, ?_⟩
        · simpa using begins.symm
        · simpa using ends.symm
    | cons head rest =>
        left
        cases ends
        exact ⟨rest, begins⟩

variable {first : Experiment α} {next : Except Interrupt α → Experiment β}

theorem Traced.followed (heeds : first.Heeds) {firstCalls nextCalls : List Moment}
    {outcome : Except Interrupt α}
    (ended : (first .nowhere).result before = (.ok outcome, middle))
    (starts : first.Traced holds before firstCalls)
    (goesOn : (next outcome).Traced holds middle nextCalls) :
    (first.followed next).Traced holds before (firstCalls ++ nextCalls) := by
  obtain ⟨grown, past⟩ := starts.finished outcome middle ended
  -- The number of tables tells that no call of the rest was met before.
  have unmet : ∀ call ∈ nextCalls, ¬first.Meets before (fun _ => False) call := by
    intro call among meets
    have earlier := past call (starts.all call meets (goesOn.isCall call among))
    exact Nat.lt_irrefl _ (Nat.lt_of_lt_of_le earlier (goesOn.since call among))
  have whole : (first.followed next .nowhere).result before =
      (next outcome .nowhere).result middle := Eval.result_observe_ended ended _
  constructor
  case isCall =>
    intro call among
    exact (List.mem_append.mp among).elim (starts.isCall call) (goesOn.isCall call)
  case met =>
    intro call among
    rcases List.mem_append.mp among with inFirst | inNext
    · exact (starts.met call inFirst).followed next
    · exact Meets.later heeds ended (goesOn.met call inNext)
  case all =>
    intro moment meets isCall
    rw [List.mem_append]
    rcases meets.cases_followed heeds with inFirst | ⟨_, _, _, endedToo, inNext⟩
    · exact .inl (starts.all moment inFirst isCall)
    · rw [ended] at endedToo
      cases endedToo
      exact .inr (goesOn.all moment inNext isCall)
  case ordered =>
    rw [List.pairwise_append]
    refine ⟨?_, ?_, ?_⟩
    · exact starts.ordered.imp fun earlier => earlier.followed next
    · refine goesOn.ordered.imp_of_mem ?_
      intro earlier later amongEarlier amongLater meets
      refine Ignores.meets_followed (heeds.ignores ?_) ended meets
      intro moment included
      rcases included with same | same
      · exact same ▸ unmet earlier amongEarlier
      · exact same ▸ unmet later amongLater
    · intro earlier amongEarlier later amongLater
      exact ((starts.met earlier amongEarlier).before_unmet heeds (unmet later amongLater)).followed
        next
  case since =>
    intro call among
    rcases List.mem_append.mp among with inFirst | inNext
    · exact starts.since call inFirst
    · exact Nat.le_trans grown (goesOn.since call inNext)
  case finished =>
    intro last after reached
    obtain ⟨grownToo, overToo⟩ := goesOn.finished last after (whole.symm.trans reached)
    refine ⟨Nat.le_trans grown grownToo, ?_⟩
    intro call among
    rcases List.mem_append.mp among with inFirst | inNext
    · exact Nat.lt_of_lt_of_le (past call inFirst) grownToo
    · exact overToo call inNext
  case reached =>
    intro history held earlier call later split
    rcases split_append split with ⟨rest, inFirst⟩ | ⟨front, before, inNext⟩
    · exact starts.reached history held earlier call rest inFirst
    · rw [before, ← List.append_assoc]
      exact goesOn.reached _ (starts.left history held outcome middle ended) front call later inNext
  case left =>
    intro history held last after reached
    rw [← List.append_assoc]
    exact goesOn.left _ (starts.left history held outcome middle ended) last after
      (whole.symm.trans reached)

theorem Traced.stuck (heeds : first.Heeds) {calls : List Moment} {cause : Crash}
    (crashed : (first .nowhere).result before = (.error cause, middle))
    (starts : first.Traced holds before calls) (next : Except Interrupt α → Experiment β) :
    (first.followed next).Traced holds before calls := by
  have whole : (first.followed next .nowhere).result before = (.error cause, middle) :=
    Eval.result_observe_crashed crashed _
  constructor
  case isCall => exact starts.isCall
  case met => exact fun call among => (starts.met call among).followed next
  case all =>
    intro moment meets isCall
    rcases meets.cases_followed heeds with inFirst | ⟨_, _, _, ended, _⟩
    · exact starts.all moment inFirst isCall
    · rw [crashed] at ended
      cases ended
  case ordered => exact starts.ordered.imp fun earlier => earlier.followed next
  case since => exact starts.since
  case finished =>
    intro outcome after ended
    rw [whole] at ended
    cases ended
  case reached => exact starts.reached
  case left =>
    intro history _ outcome after ended
    rw [whole] at ended
    cases ended

variable {experiment : Experiment α} {calls : List Moment} {depth : Nat}

theorem Traced.visit (traced : experiment.Traced holds before calls) (script : Script)
    (context : Context) :
    (experiment.entered depth (.visit script context)).Traced holds before calls := by
  have whole : (experiment.entered depth (.visit script context) .nowhere).result before =
      (experiment .nowhere).result before := result_entered rfl
  constructor
  case isCall => exact traced.isCall
  case met => exact fun call among => (traced.met call among).entered id
  case all =>
    intro moment meets isCall
    rcases meets.cases_entered with itself | ⟨_, inside⟩
    · rw [itself] at isCall
      cases isCall
    · exact traced.all moment inside isCall
  case ordered =>
    refine traced.ordered.imp_of_mem ?_
    intro earlier later _ among meets
    refine meets.entered ?_
    intro itself
    have isCall := traced.isCall later among
    rw [← itself] at isCall
    cases isCall
  case since => exact traced.since
  case finished =>
    intro outcome after ended
    exact traced.finished outcome after (whole.symm.trans ended)
  case reached => exact traced.reached
  case left =>
    intro history held outcome after ended
    exact traced.left history held outcome after (whole.symm.trans ended)

variable {function : Object} {arguments : List ObjectId} {given : List (String × Slot)}

theorem Traced.call {inner : Experiment α}
    (entered : Entered function given before middle)
    (continues : ∀ halts, (experiment halts).result before = (inner halts).result middle)
    (enters : ∀ history, holds history before →
      holds (history ++ [⟨depth, .execution function arguments given, before⟩]) middle)
    (traced : inner.Traced holds middle calls) :
    (experiment.entered depth (.execution function arguments given)).Traced holds before
      (⟨depth, .execution function arguments given, before⟩ :: calls) := by
  have meets_iff : ∀ avoided moment, experiment.Meets before avoided moment ↔
      inner.Meets middle avoided moment := by
    intro avoided moment
    unfold Meets
    simp only [continues]
  have whole : (experiment.entered depth (.execution function arguments given) .nowhere).result
      before = (inner .nowhere).result middle := (result_entered rfl).trans (continues _)
  have later : ∀ call ∈ calls, before.store.tables.size < call.machine.store.tables.size :=
    fun call among => Nat.lt_of_lt_of_le entered.more_tables (traced.since call among)
  constructor
  case isCall =>
    intro call among
    rcases List.mem_cons.mp among with itself | inside
    · rw [itself]
      rfl
    · exact traced.isCall call inside
  case met =>
    intro call among
    rcases List.mem_cons.mp among with itself | inside
    · rw [itself]
      exact meets_entered_self
    · exact ((meets_iff _ _).mpr (traced.met call inside)).entered id
  case all =>
    intro moment meets isCall
    rcases meets.cases_entered with itself | ⟨_, inside⟩
    · exact itself ▸ List.mem_cons_self
    · exact List.mem_cons_of_mem _ (traced.all moment ((meets_iff _ _).mp inside) isCall)
  case ordered =>
    refine List.pairwise_cons.mpr ⟨fun _ _ => meets_entered_self, traced.ordered.imp_of_mem ?_⟩
    intro earlier other _ among meets
    refine ((meets_iff _ _).mpr meets).entered ?_
    intro itself
    have moved := later other among
    rw [← itself] at moved
    exact Nat.lt_irrefl _ moved
  case since =>
    intro call among
    rcases List.mem_cons.mp among with itself | inside
    · exact itself ▸ Nat.le_refl _
    · exact Nat.le_of_lt (later call inside)
  case finished =>
    intro outcome after ended
    obtain ⟨grown, past⟩ := traced.finished outcome after (whole.symm.trans ended)
    have moved := Nat.lt_of_lt_of_le entered.more_tables grown
    refine ⟨Nat.le_of_lt moved, ?_⟩
    intro call among
    rcases List.mem_cons.mp among with itself | inside
    · exact itself ▸ moved
    · exact past call inside
  case reached =>
    intro history held earlier call rest split
    cases earlier with
    | nil =>
        cases split
        rw [List.append_nil]
        exact held
    | cons head front =>
        cases split
        have further := traced.reached _ (enters history held) front call rest rfl
        rw [List.append_assoc] at further
        exact further
  case left =>
    intro history held outcome after ended
    have further := traced.left _ (enters history held) outcome after (whole.symm.trans ended)
    rw [List.append_assoc] at further
    exact further

theorem traced_crash {cause : Crash}
    (crashes : ∀ halts, (experiment halts).result before = (.error cause, before)) :
    (experiment.entered depth (.execution function arguments given)).Traced holds before
      [⟨depth, .execution function arguments given, before⟩] := by
  have whole : (experiment.entered depth (.execution function arguments given) .nowhere).result
      before = (.error cause, before) := (result_entered rfl).trans (crashes _)
  constructor
  case isCall =>
    intro call among
    rw [List.mem_singleton.mp among]
    rfl
  case met =>
    intro call among
    rw [List.mem_singleton.mp among]
    exact meets_entered_self
  case all =>
    intro moment meets _
    rcases meets.cases_entered with itself | ⟨_, inside⟩
    · exact List.mem_singleton.mpr itself
    · have ignores : experiment.Ignores before fun _ => True :=
        fun halts _ => (crashes halts).trans (crashes _).symm
      exact absurd inside (ignores.not_meets trivial)
  case ordered => exact List.pairwise_singleton _ _
  case since =>
    intro call among
    exact List.mem_singleton.mp among ▸ Nat.le_refl _
  case finished =>
    intro outcome after ended
    rw [whole] at ended
    cases ended
  case reached =>
    intro history held earlier call rest split
    cases earlier with
    | nil =>
        cases split
        rw [List.append_nil]
        exact held
    | cons head front =>
        have impossible := congrArg List.length split
        simp at impossible
  case left =>
    intro history _ outcome after ended
    rw [whole] at ended
    cases ended

end Experiment

/-! ### Jobs -/

section

variable {holds : List Moment → Machine → Prop} {limits : Limits}

/-- What is kept true along the calls so far: by everything that leaves old defaults alone, and by
each call that is entered. -/
structure Kept (holds : List Moment → Machine → Prop) : Prop where
  grows : ∀ history before after, before.store.Grows after.store → holds history before →
    holds history after
  enters : ∀ history depth function arguments given before middle,
    Entered function given before middle → holds history before →
      holds (history ++ [⟨depth, .execution function arguments given, before⟩]) middle

theorem Orderly.traced {α : Type} {policy : Policy} {evaluation : Helper → Eval α} {depth : Nat}
    (orderly : Orderly policy evaluation) (kept : Kept holds)
    (footprint : ∀ before after, policy.footprint.touches before after →
      before.store.Grows after.store)
    (asked : ∀ job before, policy.asks job → ∃ calls,
      Experiment.Traced holds (fun halts => halts.perform limits depth job) before calls)
    (before : Machine) :
    ∃ calls, Experiment.Traced holds (fun halts => evaluation (halts.perform limits depth)) before
      calls := by
  refine orderly.course (fun experiment before => ∃ calls, experiment.Traced holds before calls)
    (fun _ => True) limits depth ?alone (fun job before asks _ => asked job before asks) ?followed
      before fun _ _ => trivial
  case alone =>
    intro _ evaluation before within
    exact ⟨[], Experiment.traced_alone (Activity.Within.mono within footprint) kept.grows⟩
  case followed =>
    intro _ _ first next before heeds _ starts goesOn
    obtain ⟨firstCalls, starts⟩ := starts
    cases ended : (first .nowhere).result before with
    | mk result middle =>
        cases result with
        | error cause => exact ⟨firstCalls, starts.stuck heeds ended next⟩
        | ok outcome =>
            obtain ⟨nextCalls, goesOn⟩ := goesOn outcome middle ended
            exact ⟨firstCalls ++ nextCalls, starts.followed heeds ended goesOn⟩

theorem Halts.traced_perform (kept : Kept holds) (depth : Nat) (job : Job) (before : Machine) :
    ∃ calls,
      Experiment.Traced holds (fun halts => halts.perform limits depth job) before calls := by
  induction depth, job using Job.induction generalizing before with
  | bottom script context =>
      rw [perform_bottom]
      exact ⟨[], (Experiment.traced_alone (Eval.within_crash _) kept.grows).visit script context⟩
  | execution depth visits function arguments given =>
      rw [perform_execution]
      rcases Evaluator.execute_enters function arguments given before with
        crashes | ⟨middle, rest, entered, orderly, continues⟩
      · exact ⟨_, Experiment.traced_crash fun halts => crashes _⟩
      · have asked : ∀ job before, Policy.loading.asks job → ∃ calls,
            Experiment.Traced holds (fun halts => halts.perform limits depth job) before calls := by
          intro job before asks
          cases job with
          | visit script context => exact visits script context before
          | execution _ _ _ => exact asks.elim
        obtain ⟨calls, traced⟩ := orderly.traced kept (fun _ _ grows => grows) asked middle
        exact ⟨_, traced.call entered (fun halts => continues _) fun history held =>
          kept.enters history depth function arguments given before middle entered held⟩
  | visit depth jobs script context =>
      have orderly := Evaluator.orderly_step_any limits script context
      rw [perform_visit]
      obtain ⟨calls, traced⟩ := orderly.traced kept (fun _ _ keeps => keeps.toGrows)
        (fun job before _ => jobs job before) before
      exact ⟨calls, traced.visit script context⟩

end

end Lingo
