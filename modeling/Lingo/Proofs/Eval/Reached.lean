/-
What running texts can lead to.

The texts of a session are run one after the other on one machine, whether they succeed or not.
All that happens to the store meanwhile is deeds, so what deeds preserve holds of every machine
that a session leaves behind, and of every machine on which a job comes up amid a text.
-/

import Lingo.Proofs.Eval.Wellformed

namespace Lingo

namespace Evaluator

open Activity

variable {slips : Prop} {self : Evaluator} {before : Machine} {arguments : List ObjectId}

/-! ### Executions -/

theorem behaves_bindAll (context : Context) (bindings : List (String × Slot)) :
    ∀ {before : Machine}, (bindAll context bindings).Behaves slips before := by
  induction bindings with
  | nil =>
      intro before
      exact proceeds_pure trivial
  | cons binding rest ih =>
      intro before
      have held : (objectAt binding.2).Behaves slips before := proceeds_objectAt fun _ _ => trivial
      apply held.bind
      intro id reached _ _
      apply (proceeds_setContext id context).bind
      intro _ claimed _ _
      apply (proceeds_assign context binding.1 id).bind
      intro _ assigned _ _
      exact ih

theorem behaves_callContext (name : String) (function : Object) :
    (callContext name function).Behaves slips before := by
  have found : (part function.context : Activity Context).Behaves slips before :=
    proceeds_part fun _ _ => trivial
  apply found.bind
  intro outer reached _ _
  apply (proceeds_addTable { parent := outer.table }).bind
  intro table after _ _
  exact proceeds_pure trivial

variable (reliable : self.Reliable slips) (sound : before.store.Sound)

include reliable sound

theorem proceeds_conduct (function : Object) {closure : Closure} (tidy : closure.body.Tidy)
    (arguments : List ObjectId) (context : Context) :
    (conduct self function closure arguments context).Proceeds slips before fun slot after =>
      ∃ id, slot = .object id ∧ after.store.IsValue id := by
  have checked : (Eval.ofFault (checkCount closure.name function closure.parameters
      arguments)).Behaves slips before := Eval.proceeds_ofFault fun _ _ => trivial
  apply checked.bind
  intro _ counted one _
  apply Eval.Proceeds.act (behaves_bindAll context _)
  intro _ bound two _
  apply Eval.Proceeds.after (ends_store bound)
  apply Eval.Proceeds.act (behaves_bindAll context _)
  intro _ reached three _
  have soundReached := sound.deeds ((one.trans two).trans three)
  apply Eval.Proceeds.observe (reliable.visit soundReached tidy)
  intro outcome after four held
  cases outcome with
  | ok id =>
      cases closure.yields with
      | true => exact Eval.proceeds_pure ⟨id, rfl, held⟩
      | false => exact Eval.proceeds_pure ⟨Store.nullId, rfl, (soundReached.deeds four).null⟩
  | error interrupt =>
      cases interrupt with
      | failed fault => exact Eval.proceeds_throw trivial
      | returned id => exact Eval.proceeds_pure ⟨id, rfl, held⟩
      | skipped => exact Eval.proceeds_throw trivial
      | left => exact Eval.proceeds_throw trivial

theorem proceeds_callFunction (function : Object) {closure : Closure} (tidy : closure.body.Tidy)
    (arguments : List ObjectId) (given : List (String × Slot)) :
    (callFunction self function closure arguments given).Proceeds slips before fun slot after =>
      ∃ id, slot = .object id ∧ after.store.IsValue id := by
  apply Eval.Proceeds.act (behaves_callContext closure.name function)
  intro context entered one _
  apply Eval.Proceeds.act (proceeds_changeStore (.aside rfl rfl rfl))
  intro _ reached two _
  exact proceeds_conduct reliable (sound.deeds (one.trans two)) function tidy arguments context

/-! #### Loading -/

theorem behaves_runSource (source : Source) (moduleName : String) :
    (runSource self source moduleName).Behaves slips before := by
  unfold runSource
  cases Lexer.read source with
  | crashed cause => exact proceeds_crash cause
  | refused cause start stop => exact proceeds_pure trivial
  | tokens tokens =>
      have parsed : (settle (Grammar.run Grammar.script tokens) : Activity _).Proceeds slips before
          fun result reached => Grammar.run Grammar.script tokens = .ok result ∧ before = reached :=
        proceeds_settle fun _ same => ⟨same, rfl⟩
      apply parsed.bind
      rintro ⟨attempt, stop⟩ _ _ ⟨accepted, rfl⟩
      cases attempt with
      | failure fault => exact proceeds_pure trivial
      | success tree =>
          have tidy : tree.Tidy := Grammar.tidy_of_run accepted
          have evaluated : ∀ (context : Context) {β : Type}
              (next : Except Interrupt ObjectId → Activity β),
              (∀ outcome reached, (next outcome).Behaves slips reached) →
                ((self tree context).run >>= next).Behaves slips before := by
            intro context β next goesOn
            apply Proceeds.bind (reliable tree context before sound tidy)
            intro outcome reached _ _
            exact goesOn outcome reached
          dsimp only
          split
          · apply Proceeds.after (ends_get before)
            apply Proceeds.after (ends_pure _ before)
            apply evaluated
            intro outcome reached
            split <;> exact proceeds_pure trivial
          · apply (proceeds_still (within_module? moduleName)).bind
            rintro table _ _ ⟨_, rfl⟩
            apply evaluated
            intro outcome reached
            split <;> exact proceeds_pure trivial

theorem behaves_loadScript (call : Invocation) (path : ObjectId) (moduleName : String) :
    (loadScript self call path moduleName).Behaves slips before := by
  apply call.after_text
  intro text _
  split
  · exact call.proceeds_fail _
  · apply Eval.Proceeds.after (ends_get before)
    cases before.folder.read text with
    | error fault => exact call.proceeds_fail _
    | ok content =>
        apply Eval.Proceeds.act (behaves_runSource reliable sound _ moduleName)
        intro result reached _ _
        cases result with
        | ok value => exact Eval.proceeds_pure trivial
        | error fault =>
            apply Eval.after_part
            intro message _
            exact call.proceeds_fail _

theorem behaves_runScript (call : Invocation) (path : ObjectId) :
    (runScript self call path).Behaves slips before := by
  have renewed : renewGlobals.Behaves slips before := by
    apply (proceeds_addTable { symbols := startingNames }).bind
    intro table reached _ _
    exact proceeds_modify rfl
  apply Eval.Proceeds.act renewed
  intro _ reached done _
  exact behaves_loadScript reliable (sound.deeds done) call path ""

theorem behaves_importScript (call : Invocation) (path name : ObjectId) :
    (importScript self call path name).Behaves slips before := by
  apply call.after_text
  intro _ _
  apply call.after_text
  intro moduleName _
  apply Eval.Proceeds.act (proceeds_assign call.context "fn" path)
  intro _ assigned one _
  apply Eval.Proceeds.act (proceeds_addTable { name := some moduleName })
  intro table added two _
  have listed : (modify fun machine => { machine with modules := machine.modules ++ [table] } :
      Activity Unit).Behaves slips added := proceeds_modify rfl
  apply Eval.Proceeds.act listed
  intro _ reached three _
  apply Eval.Proceeds.observe (behaves_loadScript reliable
    (sound.deeds ((one.trans two).trans three)) call path moduleName)
  intro outcome after _ _
  exact Eval.proceeds_pure trivial

/-! #### Functions of the language -/

theorem behaves_builtinAnswer (call : Invocation) {builtin : Builtin}
    (careful : builtin ∈ Builtin.slippery → slips)
    (values : ∀ id ∈ arguments, before.store.IsValue id) :
    (builtinAnswer self call builtin arguments).Behaves slips before := by
  unfold builtinAnswer
  split
  · exact behaves_runScript reliable sound call _
  · exact behaves_importScript reliable sound call _ _
  · exact Library.behaves_answer call careful values

theorem behaves_callBuiltin (function : Object) {name : String}
    (careful : ∀ builtin ∈ Builtin.slippery, name = builtin.name → slips)
    (values : ∀ id ∈ arguments, before.store.IsValue id) :
    (callBuiltin self function name arguments).Behaves slips before := by
  apply Eval.Proceeds.act (behaves_callContext name function)
  intro context entered one _
  apply Eval.after_part
  intro builtin found
  have checked : (Eval.ofFault (checkCount name function builtin.parameters arguments)).Behaves
      slips entered := Eval.proceeds_ofFault fun _ _ => trivial
  apply checked.bind
  intro _ counted two _
  apply Eval.Proceeds.act (behaves_bindAll context _)
  intro _ reached three _
  have done := (one.trans two).trans three
  exact behaves_builtinAnswer reliable (sound.deeds done) _
    (fun slippery => careful builtin slippery (Builtin.name_of_ofName? found).symm)
    fun id among => (values id among).deeds done

/-- An execution does deeds only; something slips at most in certain functions. -/
theorem behaves_execute {function : Object} (given : List (String × Slot))
    (tidy : ∀ closure, function.payload = .function closure → closure.body.Tidy)
    (values : ∀ id ∈ arguments, before.store.IsValue id)
    (careful : ∀ builtin ∈ Builtin.slippery, function.payload = .builtin builtin.name → slips) :
    (execute self function arguments given).Behaves slips before := by
  unfold execute
  cases payload : function.payload with
  | function closure =>
      exact (proceeds_callFunction reliable sound function (tidy closure payload) arguments
        given).behaves
  | builtin name =>
      refine behaves_callBuiltin reliable sound function ?_ values
      intro builtin slippery same
      exact careful builtin slippery (payload.trans (congrArg Payload.builtin same))
  | _ => exact Eval.proceeds_crash _

end Evaluator

/-! ### Jobs -/

/-- What is asked of a job: that the trees in it are tidy and that arguments are values. -/
def Job.Ready (store : Store) : Job → Prop
  | .visit script _ => script.Tidy
  | .execution function arguments _ =>
      (∀ closure, function.payload = .function closure → closure.body.Tidy) ∧
        ∀ id ∈ arguments, store.IsValue id

/-- What is known of the answer to a job: an evaluation comes to a value. -/
def Job.Yields (store : Store) : (job : Job) → job.Answer → Prop
  | .visit _ _, id => store.IsValue id
  | .execution _ _ _, _ => True

/-- At a moment something slips, by the execution of certain functions or in a loop. -/
def Moment.LetsSlip (limits : Limits) (moment : Moment) : Prop :=
  match moment.job with
  | .visit script context =>
      ∃ depth, moment.depth = depth + 1 ∧
        (Evaluator.atDepth limits depth).LetsSlip script context moment.machine
  | .execution function _ _ =>
      ∃ builtin ∈ Builtin.slippery, function.payload = .builtin builtin.name

namespace Halts

open Activity

variable {limits : Limits} {halts : Halts} {slips : Prop} {before : Machine}

/-- Whatever does not end abnormally in an experiment ends as it would without. -/
theorem follows (depth : Nat) :
    (halts.evaluator limits depth).Follows (Evaluator.atDepth limits depth) := by
  intro script context before outcome after ended
  have same := perform_nowhere limits depth (.visit script context)
  rcases heeds_perform limits depth (.visit script context) before (halts · ≠ none) with
    ⟨moment, stops, meets⟩ | ignores
  · obtain ⟨cause, stopsWith⟩ := Option.ne_none_iff_exists'.mp stops
    have both := (meets halts cause stopsWith fun _ stopsToo => .inr stopsToo).symm.trans ended
    cases both
  · have plain := (ignores halts fun _ stops => stops).symm.trans ended
    dsimp only at plain
    rw [same] at plain
    exact plain

theorem proceeds_guard {α : Type} {depth : Nat} {job : Job} {evaluation : Eval α}
    {post : α → Machine → Prop}
    (goesOn : halts ⟨depth, job, before⟩ = none → evaluation.Proceeds slips before post) :
    (halts.guard depth job evaluation).Proceeds slips before post := by
  apply Eval.Proceeds.after (ends_get before)
  cases stops : halts ⟨depth, job, before⟩ with
  | some cause => exact Eval.proceeds_crash cause
  | none => exact goesOn stops

/-- A job that is ready does deeds only, and if it is halted before anything can slip then nothing
slips. -/
theorem proceeds_perform
    (careful : ∀ moment : Moment, halts moment = none → moment.LetsSlip limits → slips)
    (depth : Nat) (job : Job) :
    ∀ before : Machine, before.store.Sound → job.Ready before.store →
      (halts.perform limits depth job).Proceeds slips before fun answer after =>
        job.Yields after.store answer := by
  induction depth, job using Job.induction with
  | bottom script context =>
      intro before sound ready
      exact proceeds_guard fun _ => Eval.proceeds_crash _
  | execution depth visits function arguments given =>
      intro before sound ready
      apply proceeds_guard
      intro goesOn
      -- The body is evaluated at the depth of the execution.
      have reliable : (halts.evaluator limits depth).Reliable slips :=
        fun script context before sound tidy => visits script context before sound tidy
      exact Evaluator.behaves_execute reliable sound given ready.1 ready.2
        fun builtin slippery same => careful _ goesOn ⟨builtin, slippery, same⟩
  | visit depth jobs script context =>
      intro before sound ready
      apply proceeds_guard
      intro goesOn
      have reliable : (halts.evaluator limits depth).Reliable slips :=
        fun script context before sound tidy => jobs (.visit script context) before sound tidy
      have executes : Executor.Reliable slips fun function arguments given =>
          halts.perform limits depth (.execution function arguments given) :=
        fun function arguments given before sound tidy values =>
          jobs (.execution function arguments given) before sound ⟨tidy, values⟩
      exact Evaluator.proceeds_step reliable executes (follows depth) limits sound ready
        fun slipping => careful _ goesOn ⟨depth, rfl, slipping⟩

end Halts

/-! ### Sessions -/

open Classical in
noncomputable def Halts.among (moments : Moment → Prop) : Halts := fun here =>
  if moments here then some .tooDeep else none

namespace Halts

variable {moments : Moment → Prop} {here : Moment}

theorem among_self (included : moments here) : among moments here = some .tooDeep :=
  if_pos included

theorem of_among (stops : among moments here ≠ none) : moments here := by
  apply Classical.byContradiction
  intro outside
  exact stops (if_neg outside)

theorem not_among (goesOn : among moments here = none) : ¬moments here := by
  intro included
  rw [among_self included] at goesOn
  cases goesOn

end Halts

namespace Machine

variable (limits : Limits)

def course (source : Source) (moduleName : String) : Experiment (Except Fault (Option ObjectId)) :=
  fun halts => liftM (Evaluator.runSource (halts.evaluator limits limits.depth) source moduleName)

/-- Texts are run one after the other, each however it ends, and certain moments are avoided. -/
inductive Session (avoided : Moment → Prop) : Machine → Prop where
  | start (folder : Folder) (input : List String) : Session avoided (.initial folder input)
  | run {before : Machine} (session : Session avoided before) (source : Source)
      (moduleName : String)
      (avoids : ∀ moment, avoided moment →
        ¬(course limits source moduleName).Meets before (fun _ => False) moment) :
      Session avoided ((Machine.run limits source moduleName).run.run before).2

/-- A machine is reached between the texts of a session, or in the middle of a text, where a job
comes up before anything that is to be avoided. -/
inductive Reached (avoided : Moment → Prop) : Machine → Prop where
  | between {machine : Machine} (session : Session limits avoided machine) : Reached avoided machine
  | amid {before : Machine} (session : Session limits avoided before) {source : Source}
      {moduleName : String} {moment : Moment}
      (meets : (course limits source moduleName).Meets before avoided moment) :
      Reached avoided moment.machine

variable {limits} {avoided : Moment → Prop} {slips : Prop} {before : Machine}

theorem heeds_course (source : Source) (moduleName : String) :
    (course limits source moduleName).Heeds :=
  (Evaluator.orderly_runSource source moduleName).heeds
    (fun halts => halts.perform limits limits.depth)
    fun job _ => Halts.heeds_perform limits limits.depth job

theorem not_met_of_ended {source : Source} {moduleName : String} {halts : Halts}
    {outcome : Except Interrupt (Except Fault (Option ObjectId))} {after : Machine}
    (ended : (course limits source moduleName halts).result before = (.ok outcome, after))
    {moment : Moment} (stops : halts moment ≠ none) :
    ¬(course limits source moduleName).Meets before (fun _ => False) moment := by
  rcases heeds_course source moduleName before (halts · ≠ none) with
    ⟨other, stopsToo, first⟩ | ignores
  · obtain ⟨cause, stopsWith⟩ := Option.ne_none_iff_exists'.mp stopsToo
    have both := (first halts cause stopsWith fun _ => .inr).symm.trans ended
    cases both
  · exact ignores.not_meets stops

theorem course_nowhere (source : Source) (moduleName : String) :
    course limits source moduleName .nowhere = liftM (Machine.run limits source moduleName) := by
  have same : Halts.nowhere.evaluator limits limits.depth = Evaluator.limited limits := by
    funext script context
    exact Halts.perform_nowhere limits limits.depth (.visit script context)
  unfold course
  rw [same]
  rfl

theorem behaves_course {halts : Halts}
    (careful : ∀ moment : Moment, halts moment = none → moment.LetsSlip limits → slips)
    (sound : before.store.Sound) (source : Source) (moduleName : String) :
    (course limits source moduleName halts).Behaves slips before := by
  have reliable : (halts.evaluator limits limits.depth).Reliable slips :=
    fun script context before sound tidy =>
      Halts.proceeds_perform careful limits.depth (.visit script context) before sound tidy
  exact .lift (Evaluator.behaves_runSource reliable sound source moduleName)

theorem result_lift {α : Type} (activity : Activity α) (before : Machine) :
    (Eval.result (liftM activity) before).2 = (activity.run.run before).2 := by
  have lifted : (liftM activity : Eval α) = ExceptT.lift activity := rfl
  unfold Eval.result
  rw [lifted, ExceptT.run_lift, ExceptT.run_map, StateT.run_map]
  rfl

section

variable (careful : ∀ moment : Moment, ¬avoided moment → moment.LetsSlip limits → slips)
  (sound : before.store.Sound)

include careful sound

/-- A text that meets nothing that is to be avoided does no more than if it were halted there. -/
theorem deeds_run {source : Source} {moduleName : String} (avoids : ∀ moment, avoided moment →
      ¬(course limits source moduleName).Meets before (fun _ => False) moment) :
    Deeds slips before.store ((Machine.run limits source moduleName).run.run before).2.store := by
  have carefulHere : ∀ moment : Moment, Halts.among avoided moment = none →
      moment.LetsSlip limits → slips :=
    fun moment goesOn => careful moment (Halts.not_among goesOn)
  -- Nothing that is avoided is met, so halting there makes no difference.
  have same : (course limits source moduleName (.among avoided)).result before =
      (course limits source moduleName .nowhere).result before :=
    (heeds_course source moduleName).ignores avoids _ fun _ => Halts.of_among
  have done := (behaves_course carefulHere sound source moduleName).result
  rw [same, course_nowhere, result_lift] at done
  exact done

theorem deeds_amid {source : Source} {moduleName : String} {moment : Moment}
    (meets : (course limits source moduleName).Meets before avoided moment) :
    Deeds slips before.store moment.machine.store := by
  have carefulHere : ∀ other : Moment,
      Halts.among (fun other => other = moment ∨ avoided other) other = none →
        other.LetsSlip limits → slips :=
    fun other goesOn => careful other fun avoids => Halts.not_among goesOn (.inr avoids)
  have stopped := meets (.among fun other => other = moment ∨ avoided other) .tooDeep
    (Halts.among_self (.inl rfl)) fun _ => Halts.of_among
  have done := (behaves_course carefulHere sound source moduleName).result
  rw [stopped] at done
  exact done

end

/-! #### From the start -/

end Machine

/-- Before any script runs there are only whole numbers and functions of the language, and nothing
is claimed. -/
theorem Store.object_initial (id : ObjectId) :
    initial.object id = default ∨ (∃ n, initial.object id = { payload := .number (.int n) }) ∨
      ∃ name, initial.object id = { payload := .builtin name } := by
  have read : initial.object id = (initialObjects.toArray[id.index]?).getD default :=
    Array.getD_eq_getD_getElem? ..
  rw [read]
  cases found : initialObjects.toArray[id.index]? with
  | none => exact .inl rfl
  | some object =>
      right
      have among := List.mem_toArray.mp (Array.mem_of_getElem? found)
      rcases List.mem_append.mp among with constant | function
      · left
        have whole : ∀ object ∈ ([{ payload := .number (.int 0) },
            { payload := .number (.int 0) }, { payload := .number (.int 1) }] : List Object),
              ∃ n, object = { payload := .number (.int n) } :=
          List.forall_mem_cons.mpr ⟨⟨0, rfl⟩, List.forall_mem_cons.mpr ⟨⟨0, rfl⟩,
            List.forall_mem_singleton.mpr ⟨1, rfl⟩⟩⟩
        exact whole object constant
      · right
        obtain ⟨builtin, _, same⟩ := List.mem_map.mp function
        exact ⟨builtin.name, same.symm⟩

theorem Store.payload_initial (id : ObjectId) :
    (initial.object id).payload = .plain ∨ (∃ n, (initial.object id).payload = .number (.int n)) ∨
      ∃ name, (initial.object id).payload = .builtin name := by
  rcases object_initial id with absent | ⟨n, constant⟩ | ⟨name, function⟩
  · exact .inl (congrArg Object.payload absent)
  · exact .inr (.inl ⟨n, congrArg Object.payload constant⟩)
  · exact .inr (.inr ⟨name, congrArg Object.payload function⟩)

theorem Store.context_initial (id : ObjectId) : (initial.object id).context = none := by
  rcases object_initial id with same | ⟨_, same⟩ | ⟨_, same⟩ <;>
    exact congrArg Object.context same

theorem Store.sound_initial : initial.Sound where
  elements _ _ among := absurd among (Array.not_mem_empty _)
  null := rfl
  bodies id closure same := by
    rcases payload_initial id with known | ⟨_, known⟩ | ⟨_, known⟩ <;>
      · rw [known] at same
        cases same
  keys _ := ⟨fun _ among => absurd among List.not_mem_nil, List.nodup_nil⟩
  dicts id dict same := by
    rcases payload_initial id with known | ⟨_, known⟩ | ⟨_, known⟩ <;>
      · rw [known] at same
        cases same

theorem Store.proper_initial : initial.Proper where
  elements _ _ among := absurd among (Array.not_mem_empty _)
  numbers id held same := by
    rcases payload_initial id with known | ⟨_, known⟩ | ⟨_, known⟩
    · rw [known] at same
      cases same
    · rw [known] at same
      cases same
      rfl
    · rw [known] at same
      cases same

namespace Machine

variable {limits : Limits} {avoided : Moment → Prop} {slips : Prop} {machine : Machine}

theorem Session.deeds
    (careful : ∀ moment : Moment, ¬avoided moment → moment.LetsSlip limits → slips)
    (session : Session limits avoided machine) : Deeds slips Store.initial machine.store := by
  induction session with
  | start folder input => exact .refl _
  | run session source moduleName avoids ih =>
      exact ih.trans (deeds_run careful (Store.sound_initial.deeds ih) avoids)

theorem Reached.deeds
    (careful : ∀ moment : Moment, ¬avoided moment → moment.LetsSlip limits → slips)
    (reached : Reached limits avoided machine) : Deeds slips Store.initial machine.store := by
  cases reached with
  | between session => exact session.deeds careful
  | amid session meets =>
      have done := session.deeds careful
      exact done.trans (deeds_amid careful (Store.sound_initial.deeds done) meets)

theorem Reached.sound (reached : Reached limits avoided machine) : machine.store.Sound :=
  Store.sound_initial.deeds (reached.deeds fun _ _ _ => trivial)

theorem Reached.proper (reached : Reached limits (Moment.LetsSlip limits) machine) :
    machine.store.Proper :=
  Store.proper_initial.deeds (reached.deeds fun _ avoids slipping => avoids slipping)

def afterText (text : String) : Machine :=
  ((Machine.run .standard { name := "<stdin>", text } "").run.run (.initial {} [])).2

theorem reached_afterText (text : String) :
    Reached .standard (fun _ => False) (afterText text) :=
  .between (.run (.start {} []) _ _ fun _ never => never.elim)

def lastValue? (machine : Machine) (text : String) : Option (Payload × Store) := do
  let (.ok (.ok (some id)), after) :=
    (Machine.run .standard { name := "<stdin>", text } "").run.run machine | none
  let .list items := (after.store.object id).payload | none
  let .object last ← (after.store.items items).back? | none
  return ((after.store.object last).payload, after.store)

end Machine

end Lingo
