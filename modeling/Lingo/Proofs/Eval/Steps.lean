/-
Evaluation proceeds in an orderly way.

For each construct: its own activities change values and the innermost table of its context
only, and the jobs that it leaves to others are evaluations of its parts in the same context
and executions of functions.  Only the entries of a dictionary and the values given to
optional parameters do not pass on faults.
-/

import Lingo.Proofs.Eval.Answers
import Lingo.Proofs.Eval.Orderly

namespace Lingo

namespace Policy

/-- The evaluation of a tree in a context, of which certain trees are the parts. -/
def visiting (strict : Prop) (parts : Script → Prop) (context : Context) : Policy where
  footprint := .scope context.table
  asks
    | .visit script inner => parts script ∧ inner = context
    | .execution _ _ _ => True
  strict := strict

end Policy

namespace Evaluator

open Activity

variable {strict : Prop} {parts : Script → Prop} {context : Context}
  {optional : List (String × Script)} {body : Script} {footprint : Footprint}

theorem orderly_part {script : Script} (part : parts script) :
    Orderly (.visiting strict parts context) fun helper => helper.evaluator script context :=
  .visit ⟨part, rfl⟩

theorem orderly_values {α : Type} {activity : Activity α} (within : activity.Within .values) :
    Orderly (.visiting strict parts context) fun _ => (liftM activity : Eval α) :=
  .act within.scope

theorem orderly_reading {α : Type} {activity : Activity α}
    (within : ∀ footprint, activity.Within footprint) :
    Orderly (.visiting strict parts context) fun _ => (liftM activity : Eval α) :=
  .act (within _)

theorem orderly_listValue (span : Span) {items : List Script} (known : ∀ item ∈ items, parts item) :
    Orderly (.visiting strict parts context) fun helper =>
      listValue helper.evaluator span items context := by
  apply (Orderly.mapM fun item inside => orderly_part (known item inside)).bind
  intro ids
  apply (orderly_values (within_addList _)).bind
  intro id
  exact orderly_values (within_make _ span context)

theorem orderly_entryValue (lax : ¬strict) {entry : (Span × String) × Script}
    (known : parts entry.2) :
    Orderly (.visiting strict parts context) fun helper =>
      entryValue helper.evaluator context entry := by
  apply Orderly.followed (orderly_part known)
  · intro outcome
    apply (orderly_values (within_make _ _ _)).bind
    intro key
    exact .pure _
  · intro isStrict
    exact absurd isStrict lax

theorem orderly_dictValue (lax : ¬strict) (span : Span) {entries : List ((Span × String) × Script)}
    (known : ∀ entry ∈ entries, parts entry.2) :
    Orderly (.visiting strict parts context) fun helper =>
      dictValue helper.evaluator span entries context := by
  apply (Orderly.mapM fun entry inside => orderly_entryValue lax (known entry inside)).bind
  intro pairs
  apply (orderly_values (within_addDict _)).bind
  intro id
  exact orderly_values (within_make _ span context)

theorem orderly_failAt {α : Type} (complaint : Complaint) (span : Span) :
    Orderly (.visiting strict parts context) fun _ =>
      (failAt complaint span context : Eval α) :=
  .fail _

theorem within_retrieve (span : Span) (context : Context) (id : ObjectId) :
    (retrieve span context id).Within .values :=
  (within_copy id).bind fun copied => (within_setPlace copied span).bind fun _ =>
    (within_setContext copied context).bind fun _ => within_pure copied

theorem orderly_findName (span : Span) (name : String) (owner : Option String) :
    Orderly (.visiting strict parts context) fun _ => findName span name owner context := by
  cases owner with
  | none => exact orderly_reading fun _ => within_lookup context name
  | some moduleName =>
      apply (orderly_reading fun _ => within_module? moduleName).bind
      intro table
      cases table with
      | none => exact orderly_failAt _ span
      | some table => exact (orderly_reading fun _ => within_store).bind fun _ => .pure _

theorem orderly_accessValue (span : Span) (name : String) (owner : Option String) :
    Orderly (.visiting strict parts context) fun _ => accessValue span name owner context := by
  apply (orderly_findName span name owner).bind
  intro found
  cases found with
  | none => exact orderly_failAt _ span
  | some id => exact orderly_values (within_retrieve span context id)

theorem orderly_assignValue (name : String) {value : Script} (known : parts value) :
    Orderly (.visiting strict parts context) fun helper =>
      assignValue helper.evaluator name value context := by
  apply (orderly_part known).bind
  intro id
  apply (Orderly.act (within_assign context name id)).bind
  intro _
  exact .pure id

/-! ### Operators -/

theorem within_yieldValue (owner : Option Context) (result : Operation.Yield) :
    (yieldValue owner result).Within .values := by
  cases result with
  | fresh payload => exact (within_addObject _).bind fun _ => within_pure _
  | existing slot => exact within_pure slot

theorem within_operate (op : BinaryOp) (left right : Object) :
    (operate op left right).Within .values :=
  Eval.Within.after within_store fun _ => (Eval.within_settle _).bind fun _ =>
    (Eval.within_ofFault _).bind fun _ => Eval.Within.lift (within_yieldValue _ _)

theorem within_claim (span : Span) (slot : Slot) : (claim span slot).Within .values :=
  Eval.Within.after (within_objectAt slot) fun id =>
    Eval.Within.after (within_setPlace id span) fun _ => Eval.within_pure id

theorem orderly_binaryValue (span : Span) (op : BinaryOp) {left right : Script}
    (knownLeft : parts left) (knownRight : parts right) :
    Orderly (.visiting strict parts context) fun helper =>
      binaryValue helper.evaluator span op left right context := by
  apply (orderly_part knownLeft).bind
  intro a
  apply (orderly_part knownRight).bind
  intro b
  apply (orderly_reading fun _ => within_object a).bind
  intro leftObject
  apply (orderly_reading fun _ => within_object b).bind
  intro rightObject
  apply (Orderly.alone (within_operate op leftObject rightObject).scope).bind
  intro slot
  exact .alone (within_claim span slot).scope

theorem orderly_unaryValue (span : Span) (op : UnaryOp) {operand : Script} (known : parts operand) :
    Orderly (.visiting strict parts context) fun helper =>
      unaryValue helper.evaluator span op operand context := by
  apply (orderly_part known).bind
  intro id
  cases op with
  | plus => exact .alone (within_claim span _).scope
  | minus =>
      apply (orderly_reading fun _ => within_object id).bind
      intro subject
      apply (Orderly.alone (within_operate .mul subject _).scope).bind
      intro slot
      exact .alone (within_claim span slot).scope
  | negation =>
      apply (orderly_reading fun _ => within_object id).bind
      intro subject
      apply (Orderly.alone (Eval.within_ofFault _)).bind
      intro result
      apply (orderly_values (within_yieldValue _ result)).bind
      intro slot
      exact .alone (within_claim span slot).scope

/-! ### Branches and loops -/

theorem orderly_bodyValue (known : parts body) (block : Bool) :
    Orderly (.visiting strict parts context) fun helper =>
      bodyValue helper.evaluator body block context := by
  apply (orderly_part known).bind
  intro id
  exact .pure _

theorem orderly_branchValue {otherwise : Option (Script × Bool)}
    {cases : List (Script × Script × Bool)}
    (knownCases : ∀ case ∈ cases, parts case.1 ∧ parts case.2.1)
    (knownOtherwise : ∀ final ∈ otherwise, parts final.1) :
    Orderly (.visiting strict parts context) fun helper =>
      branchValue helper.evaluator context otherwise cases := by
  induction cases with
  | nil =>
      cases otherwise with
      | none => exact .pure _
      | some final => exact orderly_bodyValue (knownOtherwise final rfl) final.2
  | cons head rest ih =>
      obtain ⟨condition, body, block⟩ := head
      obtain ⟨knownCondition, knownBody⟩ := knownCases _ (List.mem_cons_self ..)
      apply (orderly_part knownCondition).bind
      intro test
      apply (orderly_reading fun _ => within_object test).bind
      intro object
      cases Operation.isTrue object with
      | true => exact orderly_bodyValue knownBody block
      | false => exact ih fun case inside => knownCases case (List.mem_cons_of_mem _ inside)

theorem orderly_round (known : parts body) :
    Orderly (.visiting strict parts context) fun helper => round helper.evaluator body context := by
  apply Orderly.followed (orderly_part known)
  · intro outcome
    cases outcome with
    | ok id => exact .pure _
    | error interrupt =>
        cases interrupt with
        | failed fault => exact .fail fault
        | returned id => exact .alone (Eval.within_throw _)
        | skipped => exact .pure _
        | left => exact .pure _
  · intro isStrict fault
    rfl

theorem within_loopValue (span : Span) (block : Bool) (context : Context) (values : List ObjectId) :
    (loopValue span block context values).Within .values := by
  cases block with
  | true => exact Eval.within_pure _
  | false =>
      exact Eval.Within.after (within_addList _) fun _ => Eval.Within.lift (within_make _ _ _)

theorem orderly_countRounds (name : String) (limit step : ObjectId) (rising : Bool)
    (known : parts body) (rounds : Nat) (counter : Scalar) (values : List ObjectId) :
    Orderly (.visiting strict parts context) fun helper =>
      countRounds helper.evaluator name limit step rising body context rounds counter values := by
  induction rounds generalizing counter values with
  | zero => exact .crash .tooDeep
  | succ rounds ih =>
      apply (orderly_reading fun _ => within_scalar limit).bind
      intro bound
      apply (Orderly.settle _).bind
      intro goesOn
      cases goesOn with
      | false => exact .pure _
      | true =>
          apply (orderly_values (within_makeBare _)).bind
          intro id
          apply (Orderly.act (within_assign context name id)).bind
          intro _
          apply (orderly_reading fun _ => within_scalar step).bind
          intro stride
          apply (Orderly.settle _).bind
          intro next
          apply (orderly_round known).bind
          intro ended
          cases ended with
          | value id => exact ih next (id :: values)
          | skipped => exact ih next values
          | left => exact .pure _

theorem orderly_stepValue {step : Option Script} (known : ∀ script ∈ step, parts script) :
    Orderly (.visiting strict parts context) fun helper =>
      stepValue helper.evaluator step context := by
  cases step with
  | none => exact orderly_values (within_makeBare _)
  | some script => exact orderly_part (known script rfl)

theorem orderly_countValue (limits : Limits) (span : Span) (name : String) {first limit : Script}
    {step : Option Script} (knownFirst : parts first) (knownLimit : parts limit)
    (knownStep : ∀ script ∈ step, parts script) (knownBody : parts body) (block : Bool) :
    Orderly (.visiting strict parts context) fun helper =>
      countValue limits helper.evaluator span name first limit step body block context := by
  apply (orderly_part knownFirst).bind
  intro start
  apply (orderly_part knownLimit).bind
  intro stop
  apply (orderly_stepValue knownStep).bind
  intro stride
  apply (orderly_reading fun _ => within_scalar start).bind
  intro counter
  apply (orderly_reading fun _ => within_scalar stride).bind
  intro width
  apply (Orderly.settle _).bind
  intro rising
  apply (orderly_countRounds name stop stride rising knownBody limits.rounds counter []).bind
  intro values
  exact .alone (within_loopValue span block context values).scope

theorem within_next (collection : Collection) (index : Nat) :
    (collection.next index).Within footprint := by
  cases collection with
  | items id => exact within_store.bind fun _ => within_pure _
  | keys id size =>
      apply within_store.bind
      intro store
      dsimp only
      split
      · exact within_pure _
      · exact within_crash _

theorem within_collectionOf (id : ObjectId) : (collectionOf id).Within footprint := by
  apply (within_object id).bind
  intro object
  cases object.payload with
  | list items => exact within_pure _
  | dict entries => exact within_store.bind fun _ => within_pure _
  | _ => exact within_crash _

theorem orderly_eachRounds (name : String) (collection : Collection) (known : parts body)
    (rounds index : Nat) (values : List ObjectId) :
    Orderly (.visiting strict parts context) fun helper =>
      eachRounds helper.evaluator name collection body context rounds index values := by
  induction rounds generalizing index values with
  | zero => exact .crash .tooDeep
  | succ rounds ih =>
      apply (orderly_reading fun _ => within_next collection index).bind
      intro element
      cases element with
      | none => exact .pure _
      | some slot =>
          apply (orderly_reading fun _ => within_objectAt slot).bind
          intro id
          apply (orderly_reading fun _ => within_scalar id).bind
          intro held
          apply (orderly_values (within_makeBare _)).bind
          intro fresh
          apply (Orderly.act (within_assign context name fresh)).bind
          intro _
          apply (orderly_round known).bind
          intro ended
          cases ended with
          | value id => exact ih (index + 1) (id :: values)
          | skipped => exact ih (index + 1) values
          | left => exact .pure _

theorem orderly_eachValue (limits : Limits) (span : Span) (name : String) {collection : Script}
    (knownCollection : parts collection) (knownBody : parts body) (block : Bool) :
    Orderly (.visiting strict parts context) fun helper =>
      eachValue limits helper.evaluator span name collection body block context := by
  apply Orderly.followed (orderly_part knownCollection)
  · intro outcome
    cases outcome with
    | ok id =>
        apply (orderly_reading fun _ => within_collectionOf id).bind
        intro elements
        apply (orderly_eachRounds name elements knownBody limits.rounds 0 []).bind
        intro values
        exact .alone (within_loopValue span block context values).scope
    | error interrupt =>
        cases interrupt with
        | failed fault => exact .fail fault
        | _ => exact .crash _
  · intro isStrict fault
    rfl

theorem orderly_loopRounds {condition : Script} (knownCondition : parts condition)
    (knownBody : parts body) (rounds : Nat) (values : List ObjectId) :
    Orderly (.visiting strict parts context) fun helper =>
      loopRounds helper.evaluator condition body context rounds values := by
  induction rounds generalizing values with
  | zero => exact .crash .tooDeep
  | succ rounds ih =>
      apply (orderly_part knownCondition).bind
      intro test
      apply (orderly_reading fun _ => within_object test).bind
      intro object
      cases Operation.isTrue object with
      | false => exact .pure _
      | true =>
          apply (orderly_round knownBody).bind
          intro ended
          cases ended with
          | value id => exact ih (id :: values)
          | skipped => exact ih values
          | left => exact .pure _

/-! ### Functions -/

theorem orderly_defaultSlots (known : ∀ parameter ∈ optional, parts parameter.2) :
    Orderly (.visiting strict parts context) fun helper =>
      defaultSlots helper.evaluator context optional := by
  induction optional with
  | nil => exact .pure []
  | cons parameter rest ih =>
      have others := ih fun other inside => known other (List.mem_cons_of_mem _ inside)
      apply Orderly.followed (orderly_part (known parameter (List.mem_cons_self ..)))
      · intro outcome
        cases outcome with
        | ok id => exact others.bind fun _ => .pure _
        | error interrupt =>
            cases interrupt with
            | failed fault => exact .fail fault
            | _ => exact others.bind fun _ => .pure _
      · intro isStrict fault
        rfl

theorem within_nameValue (name : Option String) (id : ObjectId) (context : Context) :
    (nameValue name id context).Within (.scope context.table) := by
  cases name with
  | none => exact within_pure ()
  | some name => exact within_assign context name id

theorem orderly_functionValue (span : Span) (name : Option String) (parameters : List String)
    (known : ∀ parameter ∈ optional, parts parameter.2) (body : Script) (yields : Bool) :
    Orderly (.visiting strict parts context) fun helper =>
      functionValue helper.evaluator span name parameters optional body yields context := by
  apply (Orderly.alone fun before => Store.Keeps.refl _ before.store).bind
  intro machine
  dsimp only
  split
  · exact orderly_failAt _ span
  · apply (orderly_defaultSlots known).bind
    intro slots
    apply (Orderly.act (within_addDefaults _)).bind
    intro defaults
    apply (orderly_values (within_make _ span context)).bind
    intro id
    apply (Orderly.act (within_nameValue name id context)).bind
    intro _
    exact .pure id

theorem orderly_givenValues {policy : Policy} (given : List String)
    (none : policy.strict → optional = [])
    (known : ∀ parameter ∈ optional, policy.asks (.visit parameter.2 context)) :
    Orderly policy fun helper => givenValues helper.evaluator context given optional := by
  induction optional with
  | nil => exact .pure []
  | cons parameter rest ih =>
      have lax : ¬policy.strict := fun isStrict => nomatch none isStrict
      have others := ih (fun isStrict => absurd isStrict lax)
        fun other inside => known other (List.mem_cons_of_mem _ inside)
      by_cases among : parameter.1 ∈ given
      · have opened : (fun helper : Helper =>
            givenValues helper.evaluator context given (parameter :: rest)) = fun helper =>
            (helper.evaluator parameter.2 context).observe >>= fun outcome =>
              givenValues helper.evaluator context given rest >>= fun values =>
                Pure.pure ((parameter.1, settled outcome) :: values) := by
          funext helper
          exact if_pos among
        rw [opened]
        apply Orderly.followed (.visit (known parameter (List.mem_cons_self ..)))
        · intro outcome
          exact others.bind fun _ => .pure _
        · intro isStrict
          exact absurd isStrict lax
      · have opened : (fun helper : Helper =>
            givenValues helper.evaluator context given (parameter :: rest)) = fun _ =>
            (liftM (crash .missingPart : Activity (List (String × Slot))) : Eval _) := by
          funext helper
          exact if_neg among
        rw [opened]
        exact .crash _

theorem within_optionalNames (payload : Payload) : (optionalNames payload).Within footprint := by
  cases payload with
  | function closure => exact within_pure _
  | builtin name => exact within_pure _
  | _ => exact within_crash _

theorem orderly_callValue (span : Span) {callee : Script} {arguments : List Script}
    (none : strict → optional = []) (knownCallee : parts callee)
    (knownArguments : ∀ argument ∈ arguments, parts argument)
    (knownOptional : ∀ parameter ∈ optional, parts parameter.2) :
    Orderly (.visiting strict parts context) fun helper =>
      callValue helper.evaluator helper.executor span callee arguments optional context := by
  apply (orderly_part knownCallee).bind
  intro id
  apply (orderly_values (within_copy id)).bind
  intro called
  apply (orderly_values (within_setPlace called span)).bind
  intro _
  apply (Orderly.mapM fun argument inside =>
    orderly_part (knownArguments argument inside)).bind
  intro values
  apply (orderly_reading fun _ => within_object called).bind
  intro subject
  apply (orderly_reading fun _ => within_optionalNames subject.payload).bind
  intro names
  have orderlyGiven : Orderly (.visiting strict parts context) fun helper =>
      givenValues helper.evaluator context names optional :=
    orderly_givenValues names none fun parameter inside => ⟨knownOptional parameter inside, rfl⟩
  apply orderlyGiven.bind
  intro given
  apply (orderly_reading fun _ => within_object called).bind
  intro function
  apply (Orderly.execution trivial).bind
  intro result
  apply (orderly_reading fun _ => within_objectAt result).bind
  intro answer
  exact orderly_values (within_retrieve span context answer)

theorem orderly_returnValue {value : Option Script} (known : ∀ script ∈ value, parts script) :
    Orderly (.visiting strict parts context) fun helper =>
      returnValue helper.evaluator value context := by
  cases value with
  | none => exact .alone (Eval.within_throw _)
  | some script =>
      exact (orderly_part (known script rfl)).bind fun _ => .alone (Eval.within_throw _)

end Evaluator

/-! ### All trees -/

namespace Tree

variable {σ : Type}

def parts : Tree σ → List (Tree σ)
  | number _ _ | string _ _ | access _ _ _ | skip _ | leave _ => []
  | list _ items => items
  | dict _ entries => entries.map (·.2)
  | assign _ _ value => [value]
  | binary _ _ left right => [left, right]
  | unary _ _ operand => [operand]
  | branch _ cases otherwise =>
      cases.flatMap (fun case => [case.1, case.2.1]) ++ otherwise.toList.map (·.1)
  | count _ _ first limit step body _ => first :: limit :: body :: step.toList
  | each _ _ collection body _ => [collection, body]
  | loop _ condition body _ => [condition, body]
  | function _ _ _ optional body _ => body :: optional.map (·.2)
  | call _ callee arguments optional => callee :: (arguments ++ optional.map (·.2))
  | giveBack _ value => value.toList

/-- Neither a dictionary nor a call that gives values to optional parameters. -/
def isSimple : Tree σ → Bool
  | dict _ _ => false
  | call _ _ _ optional => optional.isEmpty
  | _ => true

end Tree

namespace Evaluator

open Activity

variable {strict : Prop} {parts : Script → Prop} {context : Context}

theorem orderly_step (limits : Limits) {script : Script} (plain : strict → script.isSimple)
    (known : ∀ part ∈ script.parts, parts part) :
    Orderly (.visiting strict parts context) fun helper =>
      step limits helper.evaluator helper.executor script context := by
  cases script with
  | number span literal => exact orderly_values (within_make _ span context)
  | string span text => exact orderly_values (within_make _ span context)
  | list span items => exact orderly_listValue span known
  | dict span entries =>
      have lax : ¬strict := fun isStrict => nomatch plain isStrict
      exact orderly_dictValue lax span fun entry inside => known _ (List.mem_map_of_mem inside)
  | access span name owner => exact orderly_accessValue span name owner
  | assign span name value => exact orderly_assignValue name (known value (by simp [Tree.parts]))
  | binary span op left right =>
      exact orderly_binaryValue span op (known left (by simp [Tree.parts]))
        (known right (by simp [Tree.parts]))
  | unary span op operand => exact orderly_unaryValue span op (known operand (by simp [Tree.parts]))
  | branch span cases otherwise =>
      apply orderly_branchValue
      · intro case inside
        have partOf : ∀ part ∈ [case.1, case.2.1], parts part := fun part among =>
          known part (List.mem_append_left _ (List.mem_flatMap.mpr ⟨case, inside, among⟩))
        exact ⟨partOf _ (by simp), partOf _ (by simp)⟩
      · intro final among
        exact known final.1 (List.mem_append_right _
          (List.mem_map_of_mem (Option.mem_toList.mpr among)))
  | count span name first limit step body block =>
      apply orderly_countValue limits span name (known first (by simp [Tree.parts]))
        (known limit (by simp [Tree.parts])) _ (known body (by simp [Tree.parts])) block
      intro script among
      exact known script (by simp [Tree.parts, Option.mem_def.mp among])
  | each span name collection body block =>
      exact orderly_eachValue limits span name (known collection (by simp [Tree.parts]))
        (known body (by simp [Tree.parts])) block
  | loop span condition body block =>
      apply (orderly_loopRounds (known condition (by simp [Tree.parts]))
        (known body (by simp [Tree.parts])) limits.rounds []).bind
      intro values
      exact .alone (within_loopValue span block context values).scope
  | function span name parameters optional body yields =>
      exact orderly_functionValue span name parameters
        (fun parameter inside => known _ (List.mem_cons_of_mem _ (List.mem_map_of_mem inside)))
        body yields
  | call span callee arguments optional =>
      apply orderly_callValue span _ (known callee (List.mem_cons_self ..))
      · intro argument inside
        exact known argument (List.mem_cons_of_mem _ (List.mem_append_left _ inside))
      · intro parameter inside
        exact known _ (List.mem_cons_of_mem _
          (List.mem_append_right _ (List.mem_map_of_mem inside)))
      · intro isStrict
        exact List.isEmpty_iff.mp (plain isStrict)
  | giveBack span value =>
      exact orderly_returnValue fun script among => known script (Option.mem_toList.mpr among)
  | skip span => exact .alone (Eval.within_throw _)
  | leave span => exact .alone (Eval.within_throw _)

theorem orderly_step_any (limits : Limits) (script : Script) (context : Context) :
    Orderly (.visiting False (fun _ => True) context) fun helper =>
      step limits helper.evaluator helper.executor script context :=
  orderly_step limits False.elim fun _ _ => trivial

end Evaluator

/-! ### Executions -/

def Builtin.Loads (builtin : Builtin) : Prop :=
  builtin = .run ∨ builtin = .importAs

def Footprint.any : Footprint where
  touches _ _ := True
  refl _ := trivial
  trans _ _ := trivial

namespace Policy

/-- The execution of a function in a context of its own: certain trees may be its body. -/
def entered (strict : Prop) (bodies : Script → Prop) (context : Context) : Policy where
  footprint := .scope context.table
  asks
    | .visit script inner => bodies script ∧ inner = context
    | .execution _ _ _ => False
  strict := strict

def loading : Policy where
  footprint := .growth
  asks
    | .visit _ _ => True
    | .execution _ _ _ => False
  strict := False

/-- The execution of a function from the start: only what it leaves to others is limited. -/
def executing (strict : Prop) (bodies : Script → Prop) : Policy where
  footprint := .any
  asks
    | .visit script _ => bodies script
    | .execution _ _ _ => False
  strict := strict

end Policy

namespace Evaluator

open Activity

/-! #### Script functions -/

theorem orderly_conduct {strict : Prop} {bodies : Script → Prop} {context : Context}
    (function : Object) {closure : Closure} (known : bodies closure.body)
    (arguments : List ObjectId) :
    Orderly (.entered strict bodies context) fun helper =>
      conduct helper.evaluator function closure arguments context := by
  have asked : (Policy.entered strict bodies context).asks (.visit closure.body context) :=
    ⟨known, rfl⟩
  apply (Orderly.alone (Eval.within_ofFault _)).bind
  intro _
  apply (Orderly.act (within_bindAll context _)).bind
  intro _
  apply (Orderly.act within_store).bind
  intro store
  apply (Orderly.act (within_bindAll context _)).bind
  intro _
  apply Orderly.followed (.visit asked)
  · intro outcome
    cases outcome with
    | ok id => exact .pure _
    | error interrupt =>
        cases interrupt with
        | returned id => exact .pure _
        | failed fault => exact .fail fault
        | skipped => exact .alone (Eval.within_throw _)
        | left => exact .alone (Eval.within_throw _)
  · intro isStrict fault
    rfl

/-! #### Functions of the language -/

theorem builtinAnswer_of_not_loads (self : Evaluator) (call : Invocation) {builtin : Builtin}
    (quiet : ¬builtin.Loads) (arguments : List ObjectId) :
    builtinAnswer self call builtin arguments = Library.answer call builtin arguments := by
  unfold builtinAnswer
  split
  · exact absurd (.inl rfl) quiet
  · exact absurd (.inr rfl) quiet
  · rfl

theorem orderly_serve {strict : Prop} {bodies : Script → Prop} {context : Context}
    (function : Object) {name : String}
    (quiet : ∀ builtin, Builtin.ofName? name = some builtin → ¬builtin.Loads)
    (arguments : List ObjectId) :
    Orderly (.entered strict bodies context) fun helper =>
      serve helper.evaluator function name arguments context := by
  apply Orderly.part
  intro builtin found
  apply (Orderly.alone (Eval.within_ofFault _)).bind
  intro _
  apply (Orderly.act (within_bindAll context _)).bind
  intro _
  simp only [builtinAnswer_of_not_loads _ _ (quiet builtin found)]
  exact .alone (Library.within_answer _ .values builtin arguments).scope

/-! #### Loading -/

theorem orderly_treeRun {β : Type} (tree : Script) (context : Context)
    {next : Except Interrupt ObjectId → Activity β}
    (goesOn : ∀ outcome, (next outcome).Within .growth) :
    Orderly .loading fun helper =>
      (liftM (ExceptT.run (helper.evaluator tree context)) >>= fun outcome =>
        liftM (next outcome) : Eval β) := by
  have asked : Policy.loading.asks (.visit tree context) := trivial
  apply Orderly.followed (.visit asked)
  · intro outcome
    exact .act (goesOn outcome)
  · exact False.elim

theorem orderly_runSource (source : Source) (moduleName : String) :
    Orderly .loading fun helper =>
      (liftM (runSource helper.evaluator source moduleName) : Eval _) := by
  unfold runSource
  cases Lexer.read source with
  | crashed cause => exact .crash cause
  | refused cause start stop => exact .pure _
  | tokens tokens =>
      simp only [Eval.lift_bind]
      apply (Orderly.settle _).bind
      intro parsed
      obtain ⟨attempt, stop⟩ := parsed
      cases attempt with
      | failure fault => exact .pure _
      | success tree =>
          dsimp only
          split
          · simp only [Eval.lift_bind]
            apply (Orderly.act within_get).bind
            intro machine
            apply (Orderly.pure _).bind
            intro table
            apply orderly_treeRun tree
            intro outcome
            split <;> exact within_pure _
          · simp only [Eval.lift_bind]
            apply (Orderly.act (within_module? moduleName)).bind
            intro table
            apply orderly_treeRun tree
            intro outcome
            split <;> exact within_pure _

theorem orderly_loadScript (call : Invocation) (path : ObjectId) (moduleName : String) :
    Orderly .loading fun helper => loadScript helper.evaluator call path moduleName := by
  apply (Orderly.alone (call.within_text none path)).bind
  intro text
  split
  · exact .alone (call.within_fail _)
  · apply (Orderly.alone fun before => Store.Grows.refl before.store).bind
    intro machine
    cases machine.folder.read text with
    | error fault => exact .alone (call.within_fail _)
    | ok content =>
        apply (orderly_runSource _ moduleName).bind
        intro result
        cases result with
        | ok value => exact .pure _
        | error fault =>
            apply (Orderly.act (within_part _)).bind
            intro message
            exact .alone (call.within_fail _)

theorem within_renewGlobals : renewGlobals.Within .growth := by
  have added : (addTable { symbols := startingNames }).Within (.scope none) := within_addTable _
  apply added.growth.bind
  intro table before
  exact Store.Grows.refl before.store

theorem orderly_importScript (call : Invocation) (path name : ObjectId) :
    Orderly .loading fun helper => importScript helper.evaluator call path name := by
  apply (Orderly.alone (call.within_text (some 0) path)).bind
  intro _
  apply (Orderly.alone (call.within_text (some 1) name)).bind
  intro moduleName
  apply (Orderly.act (within_assign call.context "fn" path).growth).bind
  intro _
  have added : (addTable { name := some moduleName }).Within (.scope none) := within_addTable _
  apply (Orderly.act added.growth).bind
  intro table
  apply (Orderly.alone fun before => Store.Grows.refl before.store).bind
  intro _
  apply Orderly.followed (orderly_loadScript call path moduleName)
  · intro outcome
    exact .pure _
  · exact False.elim

theorem orderly_serve_loading (function : Object) (name : String) (arguments : List ObjectId)
    (context : Context) :
    Orderly .loading fun helper => serve helper.evaluator function name arguments context := by
  apply Orderly.part
  intro builtin found
  apply (Orderly.alone (Eval.within_ofFault _)).bind
  intro _
  apply (Orderly.act (within_bindAll context _).growth).bind
  intro _
  unfold builtinAnswer
  split
  · exact (Orderly.act within_renewGlobals).bind fun _ => orderly_loadScript _ _ ""
  · exact orderly_importScript _ _ _
  · have answered : (Library.answer { start := function.start, stop := function.stop, context }
        builtin arguments).Within (.scope none) := (Library.within_answer _ .values _ _).scope
    exact .alone answered.growth

end Evaluator

end Lingo
