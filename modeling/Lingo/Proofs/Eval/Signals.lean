/-
How far loop signals go.

The round of a loop takes in the signals of continue and break statements.  A function that is
executed does not, so a statement that is in no loop of the function it stands in signals to
whatever loop the call is in.  Nothing else makes a signal leave a function.
-/

import Lingo.Proofs.Eval.Bodies

namespace Lingo

variable {limits : Limits} {interrupt : Interrupt}

def Interrupt.round? : Interrupt → Option Evaluator.Round
  | .failed _ => none
  | .returned _ => none
  | .skipped => some .skipped
  | .left => some .left

/-- A continue or break statement stands in a tree where its signal leaves the tree.  Loops take in
the signals of their bodies.  Those of the elements of dictionaries and of the values for optional
parameters are passed over, and a collection that signals makes a loop end abnormally. -/
inductive Tree.Exposes {σ : Type} : Tree σ → Prop where
  | skip (place : σ) : Exposes (.skip place)
  | leave (place : σ) : Exposes (.leave place)
  | item {place : σ} {items : List (Tree σ)} {item : Tree σ} (among : item ∈ items)
      (exposes : Exposes item) : Exposes (.list place items)
  | assign {place : σ} {name : String} {value : Tree σ} (exposes : Exposes value) :
      Exposes (.assign place name value)
  | left {place : σ} {op : BinaryOp} {left right : Tree σ} (exposes : Exposes left) :
      Exposes (.binary place op left right)
  | right {place : σ} {op : BinaryOp} {left right : Tree σ} (exposes : Exposes right) :
      Exposes (.binary place op left right)
  | operand {place : σ} {op : UnaryOp} {operand : Tree σ} (exposes : Exposes operand) :
      Exposes (.unary place op operand)
  | condition {place : σ} {cases : List (Tree σ × Tree σ × Bool)}
      {otherwise : Option (Tree σ × Bool)} {condition body : Tree σ} {block : Bool}
      (among : (condition, body, block) ∈ cases) (exposes : Exposes condition) :
      Exposes (.branch place cases otherwise)
  | body {place : σ} {cases : List (Tree σ × Tree σ × Bool)}
      {otherwise : Option (Tree σ × Bool)} {condition body : Tree σ} {block : Bool}
      (among : (condition, body, block) ∈ cases) (exposes : Exposes body) :
      Exposes (.branch place cases otherwise)
  | otherwise {place : σ} {cases : List (Tree σ × Tree σ × Bool)} {body : Tree σ} {block : Bool}
      (exposes : Exposes body) : Exposes (.branch place cases (some (body, block)))
  | first {place : σ} {name : String} {first limit : Tree σ} {step : Option (Tree σ)}
      {body : Tree σ} {block : Bool} (exposes : Exposes first) :
      Exposes (.count place name first limit step body block)
  | limit {place : σ} {name : String} {first limit : Tree σ} {step : Option (Tree σ)}
      {body : Tree σ} {block : Bool} (exposes : Exposes limit) :
      Exposes (.count place name first limit step body block)
  | step {place : σ} {name : String} {first limit step : Tree σ} {body : Tree σ} {block : Bool}
      (exposes : Exposes step) : Exposes (.count place name first limit (some step) body block)
  | test {place : σ} {condition body : Tree σ} {block : Bool} (exposes : Exposes condition) :
      Exposes (.loop place condition body block)
  | callee {place : σ} {callee : Tree σ} {arguments : List (Tree σ)}
      {optional : List (String × Tree σ)} (exposes : Exposes callee) :
      Exposes (.call place callee arguments optional)
  | argument {place : σ} {callee : Tree σ} {arguments : List (Tree σ)}
      {optional : List (String × Tree σ)} {argument : Tree σ} (among : argument ∈ arguments)
      (exposes : Exposes argument) : Exposes (.call place callee arguments optional)
  | giveBack {place : σ} {value : Tree σ} (exposes : Exposes value) :
      Exposes (.giveBack place (some value))

/-! ### Evaluations without signals -/

namespace Eval

variable {α β : Type}

def Quiet (evaluation : Eval α) : Prop :=
  ∀ before interrupt after, evaluation.Ends before (.error interrupt) after →
    interrupt.round? = none

theorem quiet_throw (silent : interrupt.round? = none) : (throw interrupt : Eval α).Quiet := by
  intro before other after ends
  cases ends
  exact silent

theorem quiet_fail (fault : Fault) : (fail fault : Eval α).Quiet :=
  quiet_throw rfl

theorem quiet_lift (activity : Activity α) : (liftM activity : Eval α).Quiet := by
  intro before interrupt after ends
  obtain ⟨_, impossible, _⟩ := Evaluator.ends_lift_iff.mp ends
  cases impossible

theorem quiet_crash (cause : Crash) :
    (liftM (Activity.crash cause : Activity α) : Eval α).Quiet :=
  quiet_lift _

theorem quiet_pure (a : α) : (pure a : Eval α).Quiet := by
  intro before interrupt after ends
  cases ends

theorem quiet_ofFault (result : Except Fault α) : (ofFault result).Quiet := by
  cases result with
  | ok value => exact quiet_pure value
  | error fault => exact quiet_fail fault

theorem quiet_observe {first : Eval α} {next : Except Interrupt α → Eval β}
    (goesOn : ∀ {before outcome middle}, first.Ends before outcome middle →
      (next outcome).Quiet) : (first.observe >>= next).Quiet := by
  intro before interrupt after ends
  obtain ⟨outcome, middle, ended, continued⟩ := ends_observe_iff.mp ends
  exact goesOn ended middle interrupt after continued

theorem Quiet.bind {first : Eval α} {next : α → Eval β} (starts : first.Quiet)
    (goesOn : ∀ a, (next a).Quiet) : (first >>= next).Quiet := by
  rw [bind_eq_observe]
  apply quiet_observe
  intro before outcome middle ended
  cases outcome with
  | ok a => exact goesOn a
  | error interrupt => exact quiet_throw (starts before interrupt middle ended)

theorem quiet_act (activity : Activity α) {next : α → Eval β} (goesOn : ∀ a, (next a).Quiet) :
    (liftM activity >>= next).Quiet :=
  (quiet_lift activity).bind goesOn

theorem quiet_mapM {γ : Type} {items : List γ} {each : γ → Eval β}
    (quiet : ∀ item ∈ items, (each item).Quiet) : (items.mapM each).Quiet := by
  induction items with
  | nil => exact quiet_pure []
  | cons item rest ih =>
      obtain ⟨first, others⟩ := List.forall_mem_cons.mp quiet
      rw [List.mapM_cons]
      apply first.bind
      intro value
      exact (ih others).bind fun values => quiet_pure _

end Eval

/-! ### Functions of the language -/

/-- The realm of all there is, which signals do not leave. -/
def Realm.silent : Realm where
  knows _ _ := True
  owns _ := True
  reaches _ _ := True
  holds _ := True
  signals := False

namespace Realm

theorem keeps_silent (before after : Machine) : silent.Keeps before after where
  holds := trivial
  knows _ _ := trivial
  reaches _ _ := trivial

theorem takes_silent (machine : Machine) (slot : Slot) : silent.Takes machine slot :=
  fun _ _ => trivial

theorem fits_silent (machine : Machine) (object : Object) : silent.Fits machine object :=
  ⟨trivial, fun _ _ => trivial, fun _ _ _ _ _ => trivial⟩

theorem shares_silent : silent.Shares where
  null _ := trivial
  number _ := trivial
  text _ := trivial
  object _ _ := fits_silent _ _
  addObject _ _ := ⟨keeps_silent _ _, trivial⟩
  claim _ _ _ _ _ := keeps_silent _ _
  addList _ _ := ⟨keeps_silent _ _, trivial⟩
  items _ _ _ _ := takes_silent _ _
  addDict _ _ := ⟨keeps_silent _ _, trivial⟩
  addDefaults _ _ := ⟨keeps_silent _ _, fun _ _ => trivial⟩
  defaultValues _ _ _ _ := takes_silent _ _
  modifyDefaults _ _ _ := keeps_silent _ _
  lookup _ _ _ := trivial
  modules _ _ := trivial
  assign _ _ _ _ _ := keeps_silent _ _
  enter _ _ := ⟨keeps_silent _ _, trivial⟩
  truth _ _ := takes_silent _ _
  reached _ _ := trivial
  ownsList _ := trivial
  entries _ _ _ _ := takes_silent _ _
  modifyItems _ _ := keeps_silent _ _
  setEntry _ _ _ _ _ _ := keeps_silent _ _
  reckon _ _ _ _ := keeps_silent _ _
  aside _ _ _ := keeps_silent _ _
  addTable _ _ := keeps_silent _ _
  renew _ := keeps_silent _ _

end Realm

theorem Eval.quiet_of_stays {α : Type} {evaluation : Eval α} {post : α → Machine → Prop}
    (stays : ∀ before, evaluation.Stays .silent before post) : evaluation.Quiet := by
  intro before interrupt after ends
  have released := Activity.Stays.finds (stays before) trivial ends
  cases interrupt with
  | failed fault => rfl
  | returned id => rfl
  | skipped => exact released.elim
  | left => exact released.elim

theorem Library.quiet_answer (call : Invocation) (builtin : Builtin) (arguments : List ObjectId) :
    (answer call builtin arguments).Quiet :=
  Eval.quiet_of_stays fun _ => offers_answer Realm.shares_silent.lends (fun _ => trivial) builtin
    (fun _ _ => trivial) fun _ _ _ => trivial

theorem Invocation.quiet_text (call : Invocation) (ordinal : Option Nat) (id : ObjectId) :
    (call.text ordinal id).Quiet :=
  Eval.quiet_of_stays fun _ => Invocation.stays_text (fun _ => trivial) ordinal id

namespace Evaluator

open Eval

variable {self : Evaluator} {context : Context}

theorem quiet_loadScript (call : Invocation) (path : ObjectId) (moduleName : String) :
    (loadScript self call path moduleName).Quiet := by
  apply (call.quiet_text none path).bind
  intro text
  split
  · exact quiet_fail _
  · apply quiet_act
    intro machine
    cases machine.folder.read text with
    | error fault => exact quiet_fail _
    | ok content =>
        apply quiet_act
        intro result
        cases result with
        | ok value => exact quiet_pure _
        | error fault => exact quiet_act _ fun _ => quiet_fail _

theorem quiet_importScript (call : Invocation) (path name : ObjectId) :
    (importScript self call path name).Quiet := by
  apply (call.quiet_text (some 0) path).bind
  intro _
  apply (call.quiet_text (some 1) name).bind
  intro moduleName
  apply quiet_act
  intro _
  apply quiet_act
  intro table
  apply quiet_act
  intro _
  apply quiet_observe
  intro _ _ _ _
  exact quiet_pure _

theorem quiet_builtinAnswer (call : Invocation) (builtin : Builtin) (arguments : List ObjectId) :
    (builtinAnswer self call builtin arguments).Quiet := by
  unfold builtinAnswer
  split
  · exact quiet_act _ fun _ => quiet_loadScript _ _ _
  · exact quiet_importScript _ _ _
  · exact Library.quiet_answer _ _ _

/-! ### Parts without signals -/

theorem quiet_findName (span : Span) (name : String) (owner : Option String) :
    (findName span name owner context).Quiet := by
  cases owner with
  | none => exact quiet_lift _
  | some moduleName =>
      apply quiet_act
      intro found
      cases found with
      | none => exact quiet_fail _
      | some table => exact quiet_act _ fun _ => quiet_pure _

theorem quiet_claim (span : Span) (slot : Slot) : (claim span slot).Quiet :=
  quiet_act _ fun _ => quiet_act _ fun _ => quiet_pure _

theorem quiet_operate (op : BinaryOp) (left right : Object) : (operate op left right).Quiet := by
  apply quiet_act
  intro store
  apply quiet_act
  intro result
  exact (quiet_ofFault result).bind fun yielded => quiet_lift _

theorem quiet_round (body : Script) : (round self body context).Quiet := by
  apply quiet_observe
  intro _ outcome _ _
  cases outcome with
  | ok id => exact quiet_pure _
  | error interrupt =>
      cases interrupt with
      | failed fault => exact quiet_fail fault
      | returned id => exact quiet_throw rfl
      | skipped => exact quiet_pure _
      | left => exact quiet_pure _

theorem quiet_loopValue (span : Span) (block : Bool) (values : List ObjectId) :
    (loopValue span block context values).Quiet := by
  unfold loopValue
  split
  · exact quiet_pure _
  · exact quiet_act _ fun _ => quiet_lift _

theorem quiet_defaultSlots (optional : List (String × Script)) :
    (defaultSlots self context optional).Quiet := by
  induction optional with
  | nil => exact quiet_pure _
  | cons pair rest ih =>
      apply quiet_observe
      intro _ outcome _ _
      cases outcome with
      | ok id => exact ih.bind fun _ => quiet_pure _
      | error interrupt =>
          cases interrupt with
          | failed fault => exact quiet_fail fault
          | returned id => exact ih.bind fun _ => quiet_pure _
          | skipped => exact ih.bind fun _ => quiet_pure _
          | left => exact ih.bind fun _ => quiet_pure _

theorem quiet_functionValue (span : Span) (name : Option String) (parameters : List String)
    (optional : List (String × Script)) (body : Script) (yields : Bool) :
    (functionValue self span name parameters optional body yields context).Quiet := by
  apply quiet_act
  intro machine
  dsimp only
  split
  · exact quiet_fail _
  · apply (quiet_defaultSlots optional).bind
    intro slots
    apply quiet_act
    intro defaults
    apply quiet_act
    intro id
    exact quiet_act _ fun _ => quiet_pure _

theorem quiet_givenValues (known : List String) (optional : List (String × Script)) :
    (givenValues self context known optional).Quiet := by
  induction optional with
  | nil => exact quiet_pure _
  | cons pair rest ih =>
      unfold givenValues
      split
      · apply quiet_observe
        intro _ _ _ _
        exact ih.bind fun _ => quiet_pure _
      · exact quiet_crash _

/-! ### Parts that may signal -/

def Discreet (self : Evaluator) : Prop :=
  ∀ script context, ¬script.Exposes → (self script context).Quiet

variable (discreet : self.Discreet)
include discreet

theorem quiet_values {scripts : List Script} (hidden : ∀ script ∈ scripts, ¬script.Exposes) :
    (scripts.mapM fun script => self script context).Quiet :=
  quiet_mapM fun script among => discreet script context (hidden script among)

theorem quiet_branchValue {cases : List (Script × Script × Bool)}
    {otherwise : Option (Script × Bool)} {place : Span}
    (hidden : ¬(Tree.branch place cases otherwise).Exposes) :
    (branchValue self context otherwise cases).Quiet := by
  induction cases with
  | nil =>
      cases otherwise with
      | none => exact quiet_pure _
      | some last =>
          obtain ⟨body, block⟩ := last
          apply (discreet body context fun exposes => hidden (.otherwise exposes)).bind
          intro id
          exact quiet_pure _
  | cons case rest ih =>
      obtain ⟨condition, body, block⟩ := case
      apply (discreet condition context fun exposes =>
        hidden (.condition List.mem_cons_self exposes)).bind
      intro test
      apply quiet_act
      intro truth
      split
      · apply (discreet body context fun exposes =>
          hidden (.body List.mem_cons_self exposes)).bind
        intro id
        exact quiet_pure _
      -- What the other cases expose the whole exposes.
      · apply ih
        intro exposes
        apply hidden
        cases exposes with
        | condition among exposes => exact .condition (List.mem_cons_of_mem _ among) exposes
        | body among exposes => exact .body (List.mem_cons_of_mem _ among) exposes
        | otherwise exposes => exact .otherwise exposes

/-- If a loop tests a condition, then the condition exposes no signal. -/
def Head.Hides : Head → Prop
  | .testing condition => ¬condition.Exposes
  | _ => True

theorem quiet_ask {β : Type} {next : Option Head → Eval β} (ends : (next none).Quiet)
    (goesOn : ∀ head : Head, head.Hides → (next (some head)).Quiet) {head : Head}
    (hides : head.Hides) : (head.ask self context >>= next).Quiet := by
  unfold Head.ask
  cases head with
  | counting name limit step rising counter =>
      simp only [bind_assoc]
      apply quiet_act
      intro bound
      apply quiet_act
      intro goes
      cases goes with
      | false => exact ends
      | true =>
          simp only [if_true, bind_assoc, pure_bind]
          exact quiet_act _ fun _ => quiet_act _ fun _ => quiet_act _ fun _ => quiet_act _ fun _ =>
            goesOn _ trivial
  | reading name collection index =>
      simp only [bind_assoc]
      apply quiet_act
      intro element
      cases element with
      | none => exact ends
      | some slot =>
          simp only [bind_assoc, pure_bind]
          exact quiet_act _ fun _ => quiet_act _ fun _ => quiet_act _ fun _ => quiet_act _ fun _ =>
            goesOn _ trivial
  | testing condition =>
      simp only [bind_assoc]
      apply (discreet condition context hides).bind
      intro test
      apply quiet_act
      intro object
      cases Operation.isTrue object with
      | false => exact ends
      | true => exact goesOn _ hides

theorem quiet_rounds (body : Script) (count : Nat) {head : Head} (hides : head.Hides)
    (values : List ObjectId) : (head.rounds self body context count values).Quiet := by
  induction count generalizing head values with
  | zero => cases head <;> exact quiet_crash _
  | succ count ih =>
      rw [Head.rounds_succ]
      apply quiet_ask discreet (quiet_pure values.reverse) _ hides
      intro next hides
      apply (quiet_round body).bind
      intro round
      cases round with
      | value id => exact ih hides (id :: values)
      | skipped => exact ih hides values
      | left => exact quiet_pure _

theorem quiet_loop (span : Span) {body : Script} (block : Bool) {count : Nat} {head : Head}
    (hides : head.Hides) :
    (head.rounds self body context count [] >>= loopValue span block context).Quiet :=
  (quiet_rounds discreet body count hides []).bind fun _ => quiet_loopValue _ _ _

theorem quiet_step {execute : Executor}
    (executes : ∀ function arguments given, (execute function arguments given).Quiet)
    (limits : Limits) : Discreet (step limits self execute) := by
  intro script context hidden
  cases script with
  | number span literal => exact quiet_lift _
  | string span text => exact quiet_lift _
  | list span items =>
      apply (quiet_values discreet fun item among exposes => hidden (.item among exposes)).bind
      intro ids
      exact quiet_act _ fun _ => quiet_lift _
  | dict span entries =>
      have all : (entries.mapM (entryValue self context)).Quiet :=
        quiet_mapM fun entry _ => quiet_observe fun _ => quiet_act _ fun _ => quiet_pure _
      exact all.bind fun pairs => quiet_act _ fun _ => quiet_lift _
  | access span name owner =>
      apply (quiet_findName span name owner).bind
      intro found
      cases found with
      | none => exact quiet_fail _
      | some id => exact quiet_lift _
  | assign span name value =>
      apply (discreet value context fun exposes => hidden (.assign exposes)).bind
      intro id
      exact quiet_act _ fun _ => quiet_pure _
  | binary span op left right =>
      apply (discreet left context fun exposes => hidden (.left exposes)).bind
      intro a
      apply (discreet right context fun exposes => hidden (.right exposes)).bind
      intro b
      apply quiet_act
      intro left
      apply quiet_act
      intro right
      exact (quiet_operate op left right).bind fun slot => quiet_claim span slot
  | unary span op operand =>
      apply (discreet operand context fun exposes => hidden (.operand exposes)).bind
      intro id
      cases op with
      | plus => exact quiet_claim span _
      | minus =>
          apply quiet_act
          intro subject
          exact (quiet_operate .mul subject _).bind fun slot => quiet_claim span slot
      | negation =>
          apply quiet_act
          intro subject
          apply (quiet_ofFault _).bind
          intro result
          exact quiet_act _ fun slot => quiet_claim span slot
  | branch span cases otherwise => exact quiet_branchValue discreet hidden
  | count span name first limit step body block =>
      apply (discreet first context fun exposes => hidden (.first exposes)).bind
      intro start
      apply (discreet limit context fun exposes => hidden (.limit exposes)).bind
      intro stop
      have strides : (stepValue self step context).Quiet := by
        cases step with
        | none => exact quiet_lift _
        | some script => exact discreet script context fun exposes => hidden (.step exposes)
      apply strides.bind
      intro stride
      apply quiet_act
      intro counter
      apply quiet_act
      intro width
      apply quiet_act
      intro rising
      exact @quiet_loop _ _ discreet span _ block _ (.counting name stop stride rising counter)
        trivial
  | each span name collection body block =>
      apply quiet_observe
      intro _ outcome _ _
      cases outcome with
      | ok id =>
          apply quiet_act
          intro elements
          exact @quiet_loop _ _ discreet span _ block _ (.reading name elements 0) trivial
      | error interrupt =>
          cases interrupt with
          | failed fault => exact quiet_fail fault
          | _ => exact quiet_crash _
  | loop span condition body block =>
      exact @quiet_loop _ _ discreet span _ block _ (.testing condition) fun exposes =>
        hidden (.test exposes)
  | function span name parameters optional body yields => exact quiet_functionValue _ _ _ _ _ _
  | call span callee arguments optional =>
      apply (discreet callee context fun exposes => hidden (.callee exposes)).bind
      intro id
      apply quiet_act
      intro called
      apply quiet_act
      intro _
      apply (quiet_values discreet fun argument among exposes =>
        hidden (.argument among exposes)).bind
      intro values
      apply quiet_act
      intro object
      apply quiet_act
      intro known
      apply (quiet_givenValues known optional).bind
      intro given
      apply quiet_act
      intro function
      apply (executes function values given).bind
      intro result
      exact quiet_act _ fun _ => quiet_lift _
  | giveBack span value =>
      cases value with
      | none => exact quiet_throw rfl
      | some script =>
          apply (discreet script context fun exposes => hidden (.giveBack exposes)).bind
          intro id
          exact quiet_throw rfl
  | skip span => exact absurd (.skip span) hidden
  | leave span => exact absurd (.leave span) hidden

theorem quiet_execute {function : Object}
    (hidden : ∀ closure, function.payload = .function closure → ¬closure.body.Exposes)
    (arguments : List ObjectId) (given : List (String × Slot)) :
    (execute self function arguments given).Quiet := by
  unfold execute
  cases payload : function.payload with
  | function closure =>
      apply quiet_act
      intro context
      apply quiet_act
      intro _
      apply (quiet_ofFault _).bind
      intro _
      apply quiet_act
      intro _
      apply quiet_act
      intro store
      apply quiet_act
      intro _
      apply quiet_observe
      intro before outcome middle ended
      cases outcome with
      | ok id => exact quiet_pure _
      | error interrupt =>
          have silent := discreet closure.body context (hidden closure payload) before interrupt
            middle ended
          cases interrupt with
          | failed fault => exact quiet_fail fault
          | returned id => exact quiet_pure _
          | skipped => cases silent
          | left => cases silent
  | builtin name =>
      apply quiet_act
      intro context
      apply quiet_act
      intro builtin
      apply (quiet_ofFault _).bind
      intro _
      apply quiet_act
      intro _
      exact quiet_builtinAnswer _ _ _
  | _ => exact quiet_crash _

end Evaluator

/-! ### Jobs -/

namespace Moment

variable (limits : Limits)

/-- A function is executed whose body exposes a signal. -/
def Leaks (moment : Moment) : Prop :=
  ∃ closure, moment.Calls closure ∧ closure.body.Exposes

/-- A moment's job ends with a signal to a loop and leaves a machine behind. -/
def Signals (moment : Moment) (round : Evaluator.Round) (after : Machine) : Prop :=
  ∃ interrupt, interrupt.round? = some round ∧
    (moment.job.perform limits moment.depth).Ends moment.machine (.error interrupt) after

end Moment

def Job.Hides : Job → Prop
  | .visit script _ => ¬script.Exposes
  | .execution _ _ _ => True

namespace Halts

variable (limits : Limits)

theorem quiet_guard {α : Type} {halts : Halts} {depth : Nat} {job : Job} {evaluation : Eval α}
    (goesOn : ∀ machine, halts ⟨depth, job, machine⟩ = none → evaluation.Quiet) :
    (halts.guard depth job evaluation).Quiet := by
  apply Eval.quiet_act
  intro machine
  cases halted : halts ⟨depth, job, machine⟩ with
  | some cause => exact Eval.quiet_crash cause
  | none => exact goesOn machine halted

/-- No signal leaves a job that is halted at all functions with exposed signals. -/
theorem quiet_perform (depth : Nat) (job : Job) (hides : job.Hides) :
    ((Halts.among Moment.Leaks).perform limits depth job).Quiet := by
  induction depth, job using Job.induction with
  | bottom script context => exact quiet_guard fun _ _ => Eval.quiet_crash _
  | execution depth visits function arguments given =>
      apply quiet_guard
      intro machine goesOn
      apply Evaluator.quiet_execute
      · intro script context hidden
        exact visits script context hidden
      -- It is not halted here, so it is no function with an exposed signal.
      · intro closure payload exposes
        exact not_among goesOn ⟨closure, ⟨function, arguments, given, rfl, payload⟩, exposes⟩
  | visit depth jobs script context =>
      apply quiet_guard
      intro _ _
      apply Evaluator.quiet_step
      · intro inner context hidden
        exact jobs (.visit inner context) hidden
      · intro function arguments given
        exact jobs (.execution function arguments given) trivial
      · exact hides

end Halts

/-- A signal leaves a job in which it is not exposed only if a function is executed in whose body
one is exposed. -/
theorem Moment.Signals.exists_leak {start : Moment} {round : Evaluator.Round} {after : Machine}
    (signals : start.Signals limits round after) (hides : start.job.Hides) :
    ∃ call, start.Meets limits call ∧ call.Leaks := by
  obtain ⟨interrupt, isSignal, ends⟩ := signals
  apply Classical.byContradiction
  intro unmet
  have ignores := (Halts.heeds_perform limits start.depth start.job).ignores
    fun call leaks meets => unmet ⟨call, meets, leaks⟩
  -- Halting at all these functions keeps the job quiet, and yet makes no difference.
  have same := ignores (.among Leaks) fun _ => Halts.of_among
  rw [Halts.result_nowhere] at same
  have silent := Halts.quiet_perform limits start.depth start.job hides start.machine interrupt
    after (same.trans ends)
  rw [isSignal] at silent
  cases silent

/-! ### Executions and rounds -/

open Evaluator in
/-- Apart from faults, the execution of a script function is interrupted exactly as its body is, but
not by a return. -/
theorem Moment.Calls.ends_iff {call : Moment} {closure : Closure} (calls : call.Calls closure)
    (unfailed : ∀ fault, interrupt ≠ .failed fault) {after : Machine} :
    (call.job.perform limits call.depth).Ends call.machine (.error interrupt) after ↔
      (∀ id, interrupt ≠ .returned id) ∧ ∃ body, call.Opens limits body ∧
        (body.job.perform limits body.depth).Ends body.machine (.error interrupt) after := by
  obtain ⟨depth, job, before⟩ := call
  obtain ⟨function, arguments, given, executes, payload⟩ := calls
  cases executes
  constructor
  · intro ends
    cases claimed : function.context with
    | none =>
        have crashed := (crashed_execute payload claimed arguments given).symm.trans ends
        cases crashed
    | some outer =>
        have conducts := (result_execute payload claimed arguments given).symm.trans ends
        rcases exists_binds_of_ends conducts with ⟨fault, failed⟩ | ⟨ready, binds⟩
        · exact absurd (Except.error.inj failed) (unfailed fault)
        · obtain ⟨unreturned, bodyEnds⟩ :=
            ends_finishBody_iff.mp ((binds.result _).symm.trans conducts)
          exact ⟨unreturned, _, binds.opens payload claimed, bodyEnds⟩
  · rintro ⟨unreturned, body, opens, ends⟩
    obtain ⟨outer, ready, claimed, binds, rfl⟩ := opens.binds payload
    refine (result_execute payload claimed arguments given).trans ?_
    exact (binds.result _).trans (ends_finishBody_iff.mpr ⟨unreturned, ends⟩)

theorem Interrupt.signal_of_round? {round : Evaluator.Round}
    (isSignal : interrupt.round? = some round) :
    (∀ fault, interrupt ≠ .failed fault) ∧ ∀ id, interrupt ≠ .returned id := by
  constructor
  · rintro fault rfl
    cases isSignal
  · rintro id rfl
    cases isSignal

theorem Moment.Calls.signals_iff {call : Moment} {closure : Closure} (calls : call.Calls closure)
    {round : Evaluator.Round} {after : Machine} :
    call.Signals limits round after ↔
      ∃ body, call.Opens limits body ∧ body.Signals limits round after := by
  constructor
  · rintro ⟨interrupt, isSignal, ends⟩
    obtain ⟨unfailed, _⟩ := Interrupt.signal_of_round? isSignal
    obtain ⟨_, body, opens, bodyEnds⟩ := (calls.ends_iff unfailed).mp ends
    exact ⟨body, opens, interrupt, isSignal, bodyEnds⟩
  · rintro ⟨body, opens, interrupt, isSignal, ends⟩
    obtain ⟨unfailed, unreturned⟩ := Interrupt.signal_of_round? isSignal
    exact ⟨interrupt, isSignal, (calls.ends_iff unfailed).mpr ⟨unreturned, body, opens, ends⟩⟩

theorem Evaluator.ends_round_iff {depth : Nat} {body : Script} {context : Context}
    {before after : Machine} {round : Round} (noValue : ∀ id, round ≠ .value id) :
    (Evaluator.round (atDepth limits depth) body context).Ends before (.ok round) after ↔
      Moment.Signals limits ⟨depth, .visit body context, before⟩ round after := by
  constructor
  · intro ends
    obtain ⟨outcome, middle, ended, finished⟩ := Eval.ends_observe_iff.mp ends
    cases outcome with
    | ok id =>
        cases finished
        exact absurd rfl (noValue id)
    | error interrupt =>
        cases interrupt with
        | failed fault => cases finished
        | returned id => cases finished
        | skipped =>
            cases finished
            exact ⟨.skipped, rfl, ended⟩
        | left =>
            cases finished
            exact ⟨.left, rfl, ended⟩
  · rintro ⟨interrupt, isSignal, ends⟩
    refine (Eval.result_observe_ended ends _).trans ?_
    cases interrupt with
    | failed fault => cases isSignal
    | returned id => cases isSignal
    | skipped =>
        cases isSignal
        rfl
    | left =>
        cases isSignal
        rfl

open Evaluator in
/-- Loop signals cross calls.  The execution of a script function ends with a value or a fault, or
with a signal to a loop, but never with a return.  It signals exactly if its body does, and only if
a function is executed, itself or another, whose body exposes a continue or break statement.  A call
passes the signal on, and a round of a loop ends with the signals of its body.  So a call in a loop
can end or skip a round, but only if a function with an exposed statement is executed. -/
theorem loop_signals_cross_calls (limits : Limits) :
    (∀ call closure, Moment.Calls call closure →
      (∀ id after, ¬(call.job.perform limits call.depth).Ends call.machine (.error (.returned id))
        after) ∧
      ∀ round after,
        (call.Signals limits round after ↔
          ∃ body, call.Opens limits body ∧ body.Signals limits round after) ∧
        (call.Signals limits round after → ∃ inner, call.Meets limits inner ∧ inner.Leaks)) ∧
    (∀ avoided depth before context span callee arguments optional called function values ready
      closure given middle round after, Machine.Reached limits avoided before →
      Addresses (atDepth limits depth) context span callee arguments before called function values
        ready →
      function.payload = .function closure →
      Supplies (atDepth limits depth) context closure.optional optional ready given middle →
      Moment.Signals limits ⟨depth, .execution function values given, middle⟩ round after →
      Moment.Signals limits
        ⟨depth + 1, .visit (.call span callee arguments optional) context, before⟩ round after) ∧
    ∀ depth body context before round after, (∀ id, round ≠ .value id) →
      let visit : Moment := ⟨depth, .visit body context, before⟩
      ((Evaluator.round (atDepth limits depth) body context).Ends before (.ok round) after ↔
        visit.Signals limits round after) ∧
      (visit.Signals limits round after →
        body.Exposes ∨ ∃ inner, visit.Meets limits inner ∧ inner.Leaks) := by
  refine ⟨?_, ?_, ?_⟩
  · intro call closure calls
    refine ⟨?_, ?_⟩
    · intro id after ends
      have unfailed : ∀ fault, Interrupt.returned id ≠ .failed fault := fun _ same => by cases same
      exact ((calls.ends_iff unfailed).mp ends).1 id rfl
    · intro round after
      refine ⟨calls.signals_iff, fun signals => signals.exists_leak ?_⟩
      obtain ⟨function, arguments, given, executes, _⟩ := calls
      rw [executes]
      trivial
  · intro avoided depth before context span callee arguments optional called function values ready
      closure given middle round after reached addresses payload supplies signals
    obtain ⟨interrupt, isSignal, ends⟩ := signals
    refine ⟨interrupt, isSignal, ?_⟩
    refine (addresses.result_executed reached.whole payload supplies).trans ?_
    exact Eval.ends_bind_iff.mpr ⟨_, _, ends, rfl⟩
  · intro depth body context before round after noValue visit
    refine ⟨ends_round_iff noValue, ?_⟩
    intro signals
    by_cases exposes : body.Exposes
    · exact .inl exposes
    · exact .inr (signals.exists_leak exposes)

def Tree.isBreak : Script → Bool
  | .list _ [.leave _] => true
  | _ => false

/-- A break statement in a function ends the loop in which the function is called. -/
theorem loop_signals_cross_calls_break :
    let before := Machine.afterText "func f() {; break; }"
    ∃ after, (Evaluator.round (Evaluator.atDepth .standard 3)
      (.call default (.access default "f" none) [] []) (Evaluator.outermost before)).Ends before
        (.ok .left) after := by
  have reached := Machine.reached_afterText "func f() {; break; }"
  have found : (Machine.afterText "func f() {; break; }").store.lookup
      (Machine.afterText "func f() {; break; }").globals "f" = some ⟨36⟩ := by decide +kernel
  have shape : ((Machine.afterText "func f() {; break; }").store.object ⟨36⟩).payload.closure?.map
      (fun closure => (closure.parameters, closure.optional, closure.body.isBreak)) =
        some ([], [], true) := by
    decide +kernel
  generalize Machine.afterText "func f() {; break; }" = machine at *
  intro before
  cases known : (before.store.object ⟨36⟩).payload with
  | function closure =>
      rw [known] at shape
      obtain ⟨parameters, optional, isBreak⟩ : closure.parameters = [] ∧ closure.optional = [] ∧
          closure.body.isBreak = true := by
        simpa [Payload.closure?] using shape
      let context := Evaluator.outermost before
      have here : context.table = some before.globals := rfl
      obtain ⟨called, function, ready, body, addresses, payload, opens⟩ :=
        exists_opens_of_name .standard 1 here found known parameters optional default default
      have signals : ∃ after, body.Signals .standard .left after := by
        obtain ⟨outer, bound, _, _, rfl⟩ := opens.binds payload
        refine ⟨bound, .left, rfl, ?_⟩
        unfold Tree.isBreak at isBreak
        split at isBreak
        · next shape =>
            change (Evaluator.atDepth .standard 2 closure.body _).Ends bound _ bound
            rw [shape]
            rfl
        · cases isBreak
      obtain ⟨after, signals⟩ := signals
      obtain ⟨executions, calls, rounds⟩ := loop_signals_cross_calls .standard
      have executed := ((executions ⟨2, .execution function [] [], ready⟩ closure
        ⟨function, [], [], rfl, payload⟩).2 .left after).1.mpr ⟨body, opens, signals⟩
      have called := calls _ 2 before context default _ [] [] called function [] ready closure []
        ready .left after reached addresses payload (.nil ready) executed
      have noValue : ∀ id, Evaluator.Round.left ≠ .value id := fun _ same => by cases same
      exact ⟨after, (rounds 3 _ context before .left after noValue).1.mpr called⟩
  | _ =>
      rw [known] at shape
      cases shape

def Machine.lastLength? (machine : Machine) (text : String) : Option Nat := do
  let (.list items, store) ← machine.lastValue? text | none
  return (store.items items).size

/-- A loop that calls a function with a break statement takes one round, and one that calls a
function without it takes all three. -/
theorem break_in_function_ends_loop_of_caller :
    let machine := Machine.afterText "func f() {; break; }; func g() {; 0; }"
    machine.lastLength? "for i = 0 to 3: f()" = some 0 ∧
      machine.lastLength? "for i = 0 to 3: g()" = some 3 := by
  decide +kernel

end Lingo
