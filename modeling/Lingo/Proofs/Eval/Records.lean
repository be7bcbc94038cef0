/-
Visits mirror evaluations.

The record of a visit is empty whenever the visit goes on, except for what the rounds of a loop
and the parts that are passed over leave in it; and whatever is left there is gone before the
record is handed on.  So each visit ends with the record of the outcome of the evaluation.
-/

import Lingo.Proofs.Eval.Visitor

namespace Lingo

variable {record : Record} {next : Record → Option ObjectId → Activity Record}

/-- A visit mirrors an evaluation: it ends with what is entered in a record for its outcome. -/
def Mirrors {α : Type} (entry : Except Interrupt α → Record) (visit : Activity Record)
    (evaluation : Eval α) : Prop :=
  visit = entry <$> evaluation.run

abbrev Records (visit : Activity Record) (evaluation : Eval ObjectId) : Prop :=
  Mirrors Outcome.ofResult visit evaluation

def Evaluator.visitor (self : Evaluator) : Visitor := fun script context =>
  (self script context).record

namespace Record

theorem value_empty : ({} : Record).value = none :=
  rfl

theorem register_succeed (unset : record.value = none) (id : ObjectId) :
    Outcome.register record (.succeed id) = {} := by
  unfold Outcome.register
  rw [unset]
  rfl

theorem register_interrupt (unset : record.value = none) (interrupt : Interrupt) :
    Outcome.register record (.ofResult (.error interrupt)) = .ofResult (.error interrupt) := by
  unfold Outcome.register
  rw [unset]
  cases interrupt <;> rfl

theorem isInterrupted_error (interrupt : Interrupt) :
    (Outcome.ofResult (.error interrupt)).isInterrupted = true := by
  cases interrupt <;> rfl

theorem result_ofResult (result : Except Interrupt ObjectId) :
    Record.result (.ofResult result) = result := by
  rcases result with (_ | _ | _ | _) | _ <;> rfl

theorem slot_ofResult (result : Except Interrupt ObjectId) :
    Visitor.slot (Outcome.ofResult result).value = Evaluator.settled result := by
  rcases result with (_ | _ | _ | _) | _ <;> rfl

end Record

namespace Mirrors

open Activity

variable {α β : Type} {entry : Except Interrupt β → Record}

theorem crash (cause : Crash) :
    Mirrors entry (Activity.crash cause) (liftM (Activity.crash cause : Activity β)) :=
  rfl

theorem observe {first : Eval α} {next : Except Interrupt α → Activity Record}
    {further : Except Interrupt α → Eval β}
    (goesOn : ∀ outcome, Mirrors entry (next outcome) (further outcome)) :
    Mirrors entry (first.run >>= next) (first.observe >>= further) := by
  have opened : (first.observe >>= further).run =
      first.run >>= fun outcome => (further outcome).run := by
    unfold Eval.observe
    rw [ExceptT.run_bind, ExceptT.run_lift, bind_map_left]
  unfold Mirrors
  rw [opened, map_bind]
  exact bind_congr goesOn

theorem look {first : Eval ObjectId} {next : Record → Activity Record}
    {further : Except Interrupt ObjectId → Eval β}
    (goesOn : ∀ outcome, Mirrors entry (next (.ofResult outcome)) (further outcome)) :
    Mirrors entry (first.record >>= next) (first.observe >>= further) := by
  unfold Eval.record
  rw [bind_map_left]
  exact observe goesOn

theorem act {activity : Activity α} {next : α → Activity Record} {further : α → Eval β}
    (goesOn : ∀ a, Mirrors entry (next a) (further a)) :
    Mirrors entry (activity >>= next) (liftM activity >>= further) := by
  have opened : (liftM activity >>= further).run = activity >>= fun a => (further a).run := by
    change (ExceptT.lift activity >>= further).run = _
    rw [ExceptT.run_bind, ExceptT.run_lift, bind_map_left]
  unfold Mirrors
  rw [opened, map_bind]
  exact bind_congr goesOn

theorem part {a : α} {next : α → Activity Record} {evaluation : Eval β}
    (goesOn : Mirrors entry (next a) evaluation) :
    Mirrors entry ((Activity.part (some a) : Activity α) >>= next) evaluation :=
  goesOn

end Mirrors

namespace Records

theorem pure (id : ObjectId) : Records (Pure.pure (.succeed id)) (Pure.pure id) :=
  rfl

theorem interrupted (interrupt : Interrupt) :
    Records (Pure.pure (.ofResult (.error interrupt))) (throw interrupt) :=
  rfl

theorem made (activity : Activity ObjectId) :
    Records (do return .succeed (← activity)) (liftM activity) := by
  have ends : (liftM activity : Eval ObjectId) = liftM activity >>= Pure.pure :=
    (bind_pure _).symm
  rw [ends]
  exact Mirrors.act pure

/-- A part is taken over: if it was interrupted then so is the whole, and else the record is empty
again. -/
theorem register {first : Eval ObjectId} {further : ObjectId → Eval ObjectId}
    (unset : record.value = none) (goesOn : ∀ id, Records (next {} (some id)) (further id)) :
    Records (record.register first.record next) (first >>= further) := by
  rw [Eval.bind_eq_observe]
  apply Mirrors.look
  intro outcome
  cases outcome with
  | ok id =>
      have taken : Outcome.register record (.ofResult (.ok id)) = {} :=
        Record.register_succeed unset id
      rw [taken]
      exact goesOn id
  | error interrupt =>
      rw [Record.register_interrupt unset, if_pos (Record.isInterrupted_error interrupt)]
      exact interrupted interrupt

end Records

namespace Visitor

open Activity Evaluator

variable {self : Evaluator} {context : Context}

/-! ### Simple values -/

theorem records_visitAll {next : Record → List (Option ObjectId) → Activity Record}
    {further : List ObjectId → Eval ObjectId} (found : List ObjectId) (items : List Script)
    (goesOn : ∀ ids, Records (next {} ((found.reverse ++ ids).map some)) (further ids)) :
    Records (visitAll self.visitor context next items {} (found.map some))
      ((items.mapM fun item => self item context) >>= further) := by
  induction items generalizing found further with
  | nil => simpa [visitAll] using goesOn []
  | cons item rest ih =>
      rw [List.mapM_cons, bind_assoc]
      apply Records.register rfl
      intro id
      simp only [bind_assoc, pure_bind]
      apply ih (id :: found)
      intro ids
      simpa using goesOn (id :: ids)

theorem records_makeListOf (span : Span) (ids : List ObjectId) :
    Records (makeListOf span context (ids.map some))
      (do make (.list (← addList (ids.map .object).toArray)) span context) := by
  have slots : (ids.map some).map slot = ids.map .object := by
    rw [List.map_map]
    rfl
  unfold makeListOf
  rw [slots]
  apply Mirrors.act
  intro list
  exact Records.made _

theorem records_visitList (span : Span) (items : List Script) :
    Records (visitList self.visitor span items context) (listValue self span items context) :=
  records_visitAll [] items (records_makeListOf span)

/-- However a value ended, its key leaves the record empty. -/
theorem records_visitEntries {next : List (ObjectId × Slot) → Activity Record}
    {further : List (ObjectId × Slot) → Eval ObjectId}
    (found : List (ObjectId × Slot)) (entries : List ((Span × String) × Script))
    (unset : record.value = none)
    (goesOn : ∀ pairs, Records (next (found.reverse ++ pairs)) (further pairs)) :
    Records (visitEntries self.visitor context next entries record found)
      (entries.mapM (entryValue self context) >>= further) := by
  induction entries generalizing record found further with
  | nil => simpa [visitEntries] using goesOn []
  | cons entry rest ih =>
      rw [List.mapM_cons, bind_assoc, entryValue, bind_assoc]
      apply Mirrors.look
      intro outcome
      rw [bind_assoc]
      apply Mirrors.act
      intro key
      have taken : Outcome.register (Outcome.register record (.ofResult outcome))
          (.succeed key) = {} := Record.register_succeed unset key
      simp only [bind_assoc, pure_bind]
      rw [taken, Record.slot_ofResult]
      apply ih ((key, settled outcome) :: found) Record.value_empty
      intro pairs
      simpa using goesOn ((key, settled outcome) :: pairs)

theorem records_visitDict (span : Span) (entries : List ((Span × String) × Script)) :
    Records (visitDict self.visitor span entries context)
      (dictValue self span entries context) := by
  apply records_visitEntries [] entries Record.value_empty
  intro pairs
  apply Mirrors.act
  intro dict
  exact Records.made _

theorem records_visitAssign (name : String) (value : Script) :
    Records (visitAssign self.visitor name value context)
      (assignValue self name value context) := by
  apply Records.register rfl
  intro id
  have assigned : (do
      let table ← tableOf context
      changeStore (·.setSymbol table name (some id))
      return { value := some id } : Activity Record) =
        assign context name id >>= fun _ => return .succeed id := by
    unfold assign
    rw [bind_assoc]
    rfl
  change Records (do
      let table ← tableOf context
      changeStore (·.setSymbol table name (some id))
      return { value := some id }) _
  rw [assigned]
  apply Mirrors.act
  intro _
  exact Records.pure id

/-! ### Operators -/

theorem records_visitBinary (span : Span) (op : BinaryOp) (left right : Script) :
    Records (visitBinary self.visitor span op left right context)
      (binaryValue self span op left right context) := by
  apply Records.register rfl
  intro a
  apply Records.register rfl
  intro b
  rfl

theorem records_visitUnary (span : Span) (op : UnaryOp) (operand : Script) :
    Records (visitUnary self.visitor span op operand context)
      (unaryValue self span op operand context) := by
  apply Records.register rfl
  intro id
  cases op <;> rfl

/-! ### Branches -/

theorem records_visitBody (unset : record.value = none) (body : Script) (block : Bool) :
    Records (visitBody self.visitor record body block context)
      (bodyValue self body block context) := by
  apply Records.register unset
  intro id
  cases block <;> exact Records.pure _

theorem records_visitBranch (otherwise : Option (Script × Bool))
    (cases : List (Script × Script × Bool)) (unset : record.value = none) :
    Records (visitBranch self.visitor context otherwise record cases)
      (branchValue self context otherwise cases) := by
  induction cases generalizing record with
  | nil =>
      cases otherwise with
      | none => exact Records.pure _
      | some final => exact records_visitBody unset final.1 final.2
  | cons head rest ih =>
      obtain ⟨condition, body, block⟩ := head
      apply Records.register unset
      intro test
      apply Mirrors.part
      apply Mirrors.act
      intro subject
      cases Operation.isTrue subject with
      | true => exact records_visitBody Record.value_empty body block
      | false => exact ih Record.value_empty

/-! ### Loops -/

/-- A round, whatever the record holds from the rounds before. -/
theorem records_visitRound (unset : record.value = none) {body : Script}
    {values : List (Option ObjectId)} {again : Record → List (Option ObjectId) → Activity Record}
    {leave : List (Option ObjectId) → Activity Record} {further : Round → Eval ObjectId}
    (goesOn : ∀ id, Records (again {} (some id :: values)) (further (.value id)))
    (skips : Records (again .skip values) (further .skipped))
    (leaves : Records (leave values.reverse) (further .left)) :
    Records (visitRound record (self.visitor body context) values again leave)
      (Evaluator.round self body context >>= further) := by
  unfold Evaluator.round
  rw [bind_assoc]
  apply Mirrors.look
  intro outcome
  cases outcome with
  | ok id =>
      have taken : Outcome.register record (.ofResult (.ok id)) = {} :=
        Record.register_succeed unset id
      rw [taken]
      exact goesOn id
  | error interrupt =>
      rw [Record.register_interrupt unset]
      cases interrupt with
      | failed fault => exact Records.interrupted _
      | returned id => exact Records.interrupted _
      | skipped => exact skips
      | left => exact leaves

theorem records_finishLoop (span : Span) (block : Bool) (values : List ObjectId) :
    Records (finishLoop span block context (values.map some))
      (loopValue span block context values) := by
  cases block with
  | true => exact Records.pure _
  | false => exact records_makeListOf span values

section

variable {leave : List (Option ObjectId) → Activity Record}
  {further : List ObjectId → Eval ObjectId}
  (leaves : ∀ values : List ObjectId, Records (leave (values.map some)) (further values))

include leaves

theorem records_leave (values : List ObjectId) :
    Records (leave (values.map some).reverse) (further values.reverse) := by
  rw [← List.map_reverse]
  exact leaves values.reverse

theorem records_visitCountRounds (name : String) (limit step : ObjectId) (rising : Bool)
    (body : Script) (rounds : Nat) (counter : Scalar) (unset : record.value = none)
    (values : List ObjectId) :
    Records
      (visitCountRounds self.visitor name limit step rising body context leave rounds counter
        record (values.map some))
      (countRounds self name limit step rising body context rounds counter values >>=
        further) := by
  induction rounds generalizing counter record values with
  | zero => exact Mirrors.crash _
  | succ rounds ih =>
      unfold visitCountRounds countRounds
      rw [bind_assoc]
      apply Mirrors.act
      intro bound
      rw [bind_assoc]
      apply Mirrors.act
      intro goesOn
      cases goesOn with
      | false => exact records_leave leaves values
      | true =>
          simp only [if_true, bind_assoc]
          apply Mirrors.act
          intro fresh
          apply Mirrors.act
          intro _
          apply Mirrors.act
          intro stride
          apply Mirrors.act
          intro next
          apply records_visitRound unset
          · intro id
            exact ih next Record.value_empty (id :: values)
          · exact ih next rfl values
          · exact records_leave leaves values

theorem records_visitEachRounds (name : String) (collection : Collection) (body : Script)
    (rounds index : Nat) (unset : record.value = none) (values : List ObjectId) :
    Records
      (visitEachRounds self.visitor name collection body context leave rounds index record
        (values.map some))
      (eachRounds self name collection body context rounds index values >>= further) := by
  induction rounds generalizing index record values with
  | zero => exact Mirrors.crash _
  | succ rounds ih =>
      unfold visitEachRounds eachRounds
      rw [bind_assoc]
      apply Mirrors.act
      intro element
      cases element with
      | none => exact records_leave leaves values
      | some slot =>
          simp only [bind_assoc]
          apply Mirrors.act
          intro id
          apply Mirrors.act
          intro held
          apply Mirrors.act
          intro fresh
          apply Mirrors.act
          intro _
          apply records_visitRound unset
          · intro id
            exact ih (index + 1) Record.value_empty (id :: values)
          · exact ih (index + 1) rfl values
          · exact records_leave leaves values

theorem records_visitLoopRounds (condition body : Script) (rounds : Nat)
    (unset : record.value = none) (values : List ObjectId) :
    Records
      (visitLoopRounds self.visitor condition body context leave rounds record
        (values.map some))
      (loopRounds self condition body context rounds values >>= further) := by
  induction rounds generalizing record values with
  | zero => exact Mirrors.crash _
  | succ rounds ih =>
      unfold visitLoopRounds loopRounds
      rw [bind_assoc]
      apply Records.register unset
      intro test
      rw [bind_assoc]
      apply Mirrors.part
      apply Mirrors.act
      intro subject
      cases Operation.isTrue subject with
      | false => exact records_leave leaves values
      | true =>
          simp only [if_true, bind_assoc]
          apply records_visitRound Record.value_empty
          · intro id
            exact ih Record.value_empty (id :: values)
          · exact ih rfl values
          · exact records_leave leaves values

end

theorem records_visitStep {further : ObjectId → Eval ObjectId}
    (goesOn : ∀ id, Records (next {} (some id)) (further id)) (step : Option Script) :
    Records (visitStep self.visitor {} step context next)
      (stepValue self step context >>= further) := by
  cases step with
  | none => exact Mirrors.act goesOn
  | some step => exact Records.register rfl goesOn

theorem records_visitCount (limits : Limits) (span : Span) (name : String) (first limit : Script)
    (step : Option Script) (body : Script) (block : Bool) :
    Records (visitCount limits self.visitor span name first limit step body block context)
      (countValue limits self span name first limit step body block context) := by
  apply Records.register rfl
  intro start
  apply Records.register rfl
  intro stop
  apply records_visitStep
  intro stride
  apply Mirrors.part
  apply Mirrors.act
  intro counter
  apply Mirrors.part
  apply Mirrors.act
  intro width
  apply Mirrors.act
  intro rising
  apply Mirrors.part
  exact records_visitCountRounds (records_finishLoop span block) name stop stride rising body
    limits.rounds counter rfl []

theorem records_visitEach (limits : Limits) (span : Span) (name : String)
    (collection body : Script) (block : Bool) :
    Records (visitEach limits self.visitor span name collection body block context)
      (eachValue limits self span name collection body block context) := by
  apply Mirrors.look
  intro outcome
  cases outcome with
  | ok id =>
      apply Mirrors.part
      apply Mirrors.act
      intro elements
      exact records_visitEachRounds (records_finishLoop span block) name elements body
        limits.rounds 0 rfl []
  | error interrupt =>
      rw [Record.register_interrupt Record.value_empty]
      cases interrupt with
      | failed fault => exact Records.interrupted _
      | returned id => exact Mirrors.crash _
      | skipped => exact Mirrors.crash _
      | left => exact Mirrors.crash _

/-! ### Functions -/

theorem records_visitDefaults {next : List Slot → Activity Record}
    {further : List Slot → Eval ObjectId} (found : List Slot) (optional : List (String × Script))
    (unset : record.value = none)
    (goesOn : ∀ slots, Records (next (found.reverse ++ slots)) (further slots)) :
    Records (visitDefaults self.visitor context next optional record found)
      (defaultSlots self context optional >>= further) := by
  induction optional generalizing record found further with
  | nil => simpa [visitDefaults, defaultSlots] using goesOn []
  | cons parameter rest ih =>
      have again : ∀ (outcome : Except Interrupt ObjectId) {record : Record}, record.value = none →
          Records
            (visitDefaults self.visitor context next rest record (settled outcome :: found))
            ((do return settled outcome :: (← defaultSlots self context rest)) >>= further) := by
        intro outcome record unset
        simp only [bind_assoc, pure_bind]
        apply ih (settled outcome :: found) unset
        intro slots
        simpa using goesOn (settled outcome :: slots)
      unfold visitDefaults defaultSlots
      rw [bind_assoc]
      apply Mirrors.look
      intro outcome
      cases outcome with
      | ok id => exact again (.ok id) unset
      | error interrupt =>
          rw [Record.register_interrupt unset]
          cases interrupt with
          | failed fault => exact Records.interrupted _
          | returned id => exact again (.error (.returned id)) rfl
          | skipped => exact again (.error .skipped) rfl
          | left => exact again (.error .left) rfl

theorem records_visitFunction (span : Span) (name : Option String) (parameters : List String)
    (optional : List (String × Script)) (body : Script) (yields : Bool) :
    Records (visitFunction self.visitor span name parameters optional body yields context)
      (functionValue self span name parameters optional body yields context) := by
  apply Mirrors.act
  intro machine
  dsimp only
  cases name.filter fun known => ((machine.store.table machine.globals).own? known).isSome with
  | some known => exact rfl
  | none =>
      apply records_visitDefaults [] optional Record.value_empty
      intro slots
      apply Mirrors.act
      intro defaults
      apply Mirrors.act
      intro id
      apply Mirrors.act
      intro _
      exact Records.pure id

/-! ### Calls -/

theorem records_visitGiven {next : Record → List (String × Slot) → Activity Record}
    {further : List (String × Slot) → Eval ObjectId} {known : List String}
    (found : List (String × Slot)) (optional : List (String × Script))
    (unset : record.value = none)
    (goesOn : ∀ {record : Record} given, record.value = none →
      Records (next record (found.reverse ++ given)) (further given)) :
    Records (visitGiven self.visitor context known next optional record found)
      (givenValues self context known optional >>= further) := by
  induction optional generalizing record found further with
  | nil => simpa [visitGiven, givenValues] using goesOn [] unset
  | cons parameter rest ih =>
      obtain ⟨name, value⟩ := parameter
      unfold visitGiven givenValues
      by_cases among : name ∈ known
      · rw [if_pos among, if_pos among, bind_assoc]
        apply Mirrors.look
        intro outcome
        have stays : (Outcome.register record (.ofResult outcome)).value = none := unset
        simp only [bind_assoc, pure_bind]
        rw [Record.slot_ofResult]
        apply ih ((name, settled outcome) :: found) stays
        intro record given unset
        simpa using goesOn ((name, settled outcome) :: given) unset
      · rw [if_neg among, if_neg among]
        exact Mirrors.crash _

theorem evaluator_visitor (self : Evaluator) : self.visitor.evaluator = self := by
  funext script context
  have read : Record.result ∘ Outcome.ofResult = id := funext Record.result_ofResult
  change ExceptT.mk (Record.result <$> Outcome.ofResult <$> (self script context).run) = _
  rw [← comp_map, read, id_map]
  rfl

theorem conclude_value (closure : Closure) (id : ObjectId) :
    conclude closure {} (some id) = .succeed (if closure.yields then id else Store.nullId) := by
  unfold conclude
  cases closure.yields <;> rfl

theorem conclude_returned (closure : Closure) (id : ObjectId) :
    conclude closure (.giveBack id) none = .succeed id := by
  unfold conclude
  cases closure.yields <;> rfl

theorem mirrors_executeFunction (function : Object) (closure : Closure) (arguments : List ObjectId)
    (given : List (String × Slot)) :
    Mirrors Record.ofAnswer (executeFunction self.visitor function closure arguments given)
      (callFunction self function closure arguments given) := by
  apply Mirrors.act
  intro context
  apply Mirrors.act
  intro _
  unfold visitParameters conduct
  cases checkCount closure.name function closure.parameters arguments with
  | error fault => exact rfl
  | ok _ =>
      unfold Record.register
      simp only [bind_assoc, pure_bind]
      apply Mirrors.act
      intro _
      apply Mirrors.act
      intro store
      apply Mirrors.act
      intro _
      apply Mirrors.look
      intro outcome
      cases outcome with
      | ok id => exact congrArg Pure.pure (conclude_value closure id)
      | error interrupt =>
          cases interrupt with
          | failed fault => exact rfl
          | returned id => exact congrArg Pure.pure (conclude_returned closure id)
          | skipped => exact rfl
          | left => exact rfl

theorem mirrors_execute (function : Object) (arguments : List ObjectId)
    (given : List (String × Slot)) :
    Mirrors Record.ofAnswer (execute self.visitor function arguments given)
      (Evaluator.execute self function arguments given) := by
  unfold execute Evaluator.execute
  cases function.payload with
  | function closure => exact mirrors_executeFunction function closure arguments given
  | builtin name =>
      rw [evaluator_visitor]
      exact rfl
  | _ => exact Mirrors.crash _

theorem records_answer {answer : Activity Record} {execution : Eval Slot}
    (mirrors : Mirrors Record.ofAnswer answer execution) (unset : record.value = none)
    {further : Slot → Eval ObjectId}
    (goesOn : ∀ id, Records (next {} (some id)) (further (.object id)))
    (missing : ∀ slot, (∀ id, slot ≠ .object id) → Records (next {} none) (further slot)) :
    Records (record.register answer next) (execution >>= further) := by
  have empty : Outcome.register record {} = {} := by
    unfold Outcome.register
    rw [unset]
  unfold Record.register
  rw [mirrors, bind_map_left, Eval.bind_eq_observe]
  apply Mirrors.observe
  intro outcome
  cases outcome with
  | ok slot =>
      cases slot with
      | object id =>
          have taken : Outcome.register record (Record.ofAnswer (.ok (.object id))) = {} :=
            Record.register_succeed unset id
          rw [taken]
          exact goesOn id
      | bare held =>
          have taken : Outcome.register record (Record.ofAnswer (.ok (.bare held))) = {} := empty
          rw [taken]
          exact missing _ nofun
      | nothing =>
          have taken : Outcome.register record (Record.ofAnswer (.ok .nothing)) = {} := empty
          rw [taken]
          exact missing _ nofun
  | error interrupt =>
      have taken : Outcome.register record (Record.ofAnswer (.error interrupt)) =
          .ofResult (.error interrupt) := Record.register_interrupt unset interrupt
      rw [taken, if_pos (Record.isInterrupted_error interrupt)]
      exact Records.interrupted interrupt

theorem mapM_part (ids : List ObjectId) :
    ((ids.map some).mapM fun value => (part value : Activity ObjectId)) = pure ids := by
  induction ids with
  | nil => rfl
  | cons id rest ih =>
      rw [List.map_cons, List.mapM_cons, ih]
      rfl

theorem records_visitCall {recorder : Recorder} {executor : Executor}
    (mirrors : ∀ function arguments given,
      Mirrors Record.ofAnswer (recorder function arguments given)
        (executor function arguments given))
    (span : Span) (callee : Script) (arguments : List Script)
    (optional : List (String × Script)) :
    Records (visitCall self.visitor recorder span callee arguments optional context)
      (callValue self executor span callee arguments optional context) := by
  apply Records.register rfl
  intro id
  apply Mirrors.part
  apply Mirrors.act
  intro called
  apply Mirrors.act
  intro _
  apply records_visitAll [] arguments
  intro ids
  apply Mirrors.act
  intro subject
  apply Mirrors.act
  intro known
  apply records_visitGiven [] optional Record.value_empty
  intro record given unset
  rw [mapM_part, pure_bind]
  apply Mirrors.act
  intro function
  apply records_answer (mirrors function ids given) unset
  · intro result
    exact Records.made (retrieve span context result)
  · intro slot noObject
    cases slot with
    | object id => exact absurd rfl (noObject id)
    | bare held => exact rfl
    | nothing => exact rfl

theorem records_visitReturn (value : Option Script) :
    Records (visitReturn self.visitor value context) (returnValue self value context) := by
  cases value with
  | none => exact Records.interrupted (.returned Store.nullId)
  | some value =>
      unfold visitReturn returnValue
      apply Records.register rfl
      intro id
      exact Records.interrupted (.returned id)

/-! ### All trees -/

theorem records_step {recorder : Recorder} {executor : Executor}
    (mirrors : ∀ function arguments given,
      Mirrors Record.ofAnswer (recorder function arguments given)
        (executor function arguments given))
    (limits : Limits) (script : Script) (context : Context) :
    Records (step limits self.visitor recorder script context)
      (Evaluator.step limits self executor script context) := by
  cases script with
  | number span literal => exact Records.made _
  | string span text => exact Records.made _
  | list span items => exact records_visitList span items
  | dict span entries => exact records_visitDict span entries
  | access span name owner => exact rfl
  | assign span name value => exact records_visitAssign name value
  | binary span op left right => exact records_visitBinary span op left right
  | unary span op operand => exact records_visitUnary span op operand
  | branch span cases otherwise => exact records_visitBranch otherwise cases rfl
  | count span name first limit step body block =>
      exact records_visitCount limits span name first limit step body block
  | each span name collection body block =>
      exact records_visitEach limits span name collection body block
  | loop span condition body block =>
      exact records_visitLoopRounds (records_finishLoop span block) condition body limits.rounds
        rfl []
  | function span name parameters optional body yields =>
      exact records_visitFunction span name parameters optional body yields
  | call span callee arguments optional =>
      exact records_visitCall mirrors span callee arguments optional
  | giveBack span value => exact records_visitReturn value
  | skip span => exact Records.interrupted .skipped
  | leave span => exact Records.interrupted .left

theorem atDepth_eq_visitor (limits : Limits) (depth : Nat) :
    atDepth limits depth = (Evaluator.atDepth limits depth).visitor := by
  induction depth with
  | zero => rfl
  | succ depth ih =>
      funext script context
      unfold atDepth
      rw [ih]
      exact records_step mirrors_execute limits script context

end Visitor

end Lingo
