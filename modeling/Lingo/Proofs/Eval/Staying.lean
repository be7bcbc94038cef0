/-
Evaluations stay in closed realms.

One level of evaluation stays in a closed realm if the evaluator below it does, if the names that it
sets may be set and if the faults of its operator are reported.  What the functions of the language
do is not decided here: a realm in which none of them can be in hand is left by no evaluation.
-/

import Lingo.Proofs.Eval.Reached

namespace Lingo

variable {function : Object}

/-- An evaluator that stays in a realm, and comes to what may be in hand. -/
def Evaluator.Loyal (realm : Realm) (self : Evaluator) : Prop :=
  ∀ script context before, realm.Admits before context →
    (self script context).Stays realm before fun id after => realm.Yields after id

namespace Realm

variable (realm : Realm)

/-- All that an execution is given may be in hand, and the function has a place. -/
structure Entrusts (machine : Machine) (function : Object) (arguments : List ObjectId)
    (given : List (String × Slot)) : Prop where
  fits : realm.Fits machine function
  places : realm.places function
  knows : ∀ id ∈ arguments, realm.knows machine id
  takes : ∀ pair ∈ given, realm.Takes machine pair.2

variable {realm} in
theorem Entrusts.keeps {before after : Machine} {arguments : List ObjectId}
    {given : List (String × Slot)} (entrusts : realm.Entrusts before function arguments given)
    (keeps : realm.Keeps before after) : realm.Entrusts after function arguments given where
  fits := entrusts.fits.keeps keeps
  places := entrusts.places
  knows := keeps.knowsAll entrusts.knows
  takes pair among := (entrusts.takes pair among).keeps keeps

/-- The number of an argument may be replaced if that is what a function does. -/
def Spares (function : Object) (arguments : List ObjectId) : Prop :=
  function.payload = .builtin Builtin.fact.name → ∀ id ∈ arguments, realm.reckons id

/-- The functions of the language stay in a realm if the evaluator does. -/
def Serves : Prop :=
  ∀ self : Evaluator, self.Loyal realm → ∀ function name arguments given before,
    realm.Entrusts before function arguments given → realm.Spares function arguments →
      function.payload = .builtin name →
        (Evaluator.callBuiltin self function name arguments).Stays realm before fun slot after =>
          realm.Takes after slot

end Realm

/-- An executor that stays in a realm if all that it is given may be in hand. -/
def Executor.Loyal (realm : Realm) (execute : Executor) : Prop :=
  ∀ function arguments given before, realm.Entrusts before function arguments given →
    (execute function arguments given).Stays realm before fun slot after => realm.Takes after slot

/-! ### What may happen at a piece of script -/

/-- The names that a tree itself sets, apart from those that are set by its parts. -/
def Script.sets : Script → List String
  | .assign _ name _ => [name]
  | .count _ name _ _ _ _ _ => [name]
  | .each _ name _ _ _ => [name]
  | .function _ name _ _ _ _ => name.toList
  | _ => []

/-- The operator of a tree refuses what its operands come to. -/
inductive Evaluator.Refuses (self : Evaluator) (context : Context) (before : Machine) :
    Script → List ObjectId → Fault → Machine → Prop where
  | binary {span : Span} {op : BinaryOp} {left right : Script} {a b : ObjectId} {fault : Fault}
      {middle after : Machine} (first : (self left context).Ends before (.ok a) middle)
      (second : (self right context).Ends middle (.ok b) after)
      (refused : Operation.binary after.store op (after.store.object a) (after.store.object b) =
        .ok (.error fault)) :
      Refuses self context before (.binary span op left right) [a, b] fault after
  | minus {span : Span} {operand : Script} {id : ObjectId} {fault : Fault} {after : Machine}
      (evaluated : (self operand context).Ends before (.ok id) after)
      (refused : Operation.binary after.store .mul (after.store.object id) Operation.minusOne =
        .ok (.error fault)) :
      Refuses self context before (.unary span .minus operand) [id] fault after
  | negation {span : Span} {operand : Script} {id : ObjectId} {fault : Fault} {after : Machine}
      (evaluated : (self operand context).Ends before (.ok id) after)
      (refused : Operation.negation (after.store.object id) = .error fault) :
      Refuses self context before (.unary span .negation operand) [id] fault after

/-- A tree may be evaluated as far as that is up to the tree itself. -/
structure Realm.Permits (realm : Realm) (below : Evaluator) (script : Script) (context : Context)
    (before : Machine) : Prop where
  binds : ∀ name ∈ script.sets, realm.Binds before context name
  reports : ∀ {operands fault after}, realm.holds after →
    (∀ id ∈ operands, realm.Yields after id) →
      below.Refuses context before script operands fault after → realm.reports fault

/-! ### Operators -/

namespace Operation

/-- What an operator may yield: a number, a text, or an element of the left operand. -/
inductive Gives (store : Store) (left : Object) : Yield → Prop where
  | number (value : Scalar) : Gives store left (.fresh (.number value))
  | text (value : String) : Gives store left (.fresh (.text value))
  | element {items : ListId} {slot : Slot} (list : left.payload = .list items)
      (among : slot ∈ store.items items) : Gives store left (.existing slot)

theorem gives_binary {store : Store} {op : BinaryOp} {left right : Object} {result : Yield}
    (computed : binary store op left right = .ok (.ok result)) : Gives store left result := by
  cases computes_binary computed with
  | number _ _ _ => exact .number _
  | text value => exact .text value
  | element list among => exact .element list among

theorem gives_negation {store : Store} {object : Object} {result : Yield}
    (computed : negation object = .ok result) : Gives store object result := by
  unfold negation at computed
  split at computed
  · cases computed
    exact .number _
  · cases computed

end Operation

namespace Evaluator

open Activity

variable {realm : Realm} (closed : realm.Closed) {self : Evaluator} (loyal : self.Loyal realm)
  {context : Context} {before : Machine}

theorem takes_settled {outcome : Except Interrupt ObjectId} {after : Machine}
    (found : Eval.Finds realm (fun id after => realm.Yields after id) outcome after) :
    realm.Takes after (settled outcome) := by
  cases outcome with
  | ok id => exact Realm.takes_object found.1
  | error interrupt => exact fun _ same => by cases same

theorem mem_overrideDefaults {names : List String} {slot : Slot} :
    ∀ {given : List (String × Slot)} {values : Array Slot},
      slot ∈ overrideDefaults names given values →
        slot ∈ values ∨ ∃ pair ∈ given, pair.2 = slot := by
  intro given
  induction given with
  | nil =>
      intro values among
      exact .inl among
  | cons pair rest ih =>
      intro values among
      have opened : slot ∈ overrideDefaults names rest (overrideDefault names values pair) := among
      rcases ih opened with earlier | ⟨other, later, same⟩
      · unfold overrideDefault at earlier
        split at earlier
        · rcases Array.mem_or_eq_of_mem_setIfInBounds earlier with old | new
          · exact .inl old
          · exact .inr ⟨pair, List.mem_cons_self, new.symm⟩
        · exact .inl earlier
      · exact .inr ⟨other, List.mem_cons_of_mem _ later, same⟩

theorem mem_modules {moduleName : String} {table : TableId}
    (ended : (module? moduleName).Ends before (some table) before) : table ∈ before.modules := by
  have found : Except.ok (before.modules.find? fun id =>
      (before.store.table id).name = some moduleName) = .ok (some table) :=
    congrArg Prod.fst ended
  exact List.mem_of_find?_eq_some (Except.ok.inj found)

include closed

theorem stays_failAt {α : Type} {post : α → Machine → Prop} (admits : realm.Admits before context)
    (complaint : Complaint) (span : Span) :
    (failAt complaint span context : Eval α).Stays realm before post := by
  let claimed : Object :=
    { payload := .plain, start := some span.start, stop := some span.stop }
  have placed : realm.places claimed := closed.placed rfl rfl
  refine Eval.stays_fail (closed.complains complaint placed fun known same => ?_)
  cases same
  exact admits.grounds

theorem reports_checkCount (fits : realm.Fits before function) (places : realm.places function)
    (name : String) (parameters : List String) (arguments : List ObjectId) (fault : Fault)
    (wrong : checkCount name function parameters arguments = .error fault) :
    realm.reports fault := by
  unfold checkCount at wrong
  dsimp only at wrong
  split at wrong
  · cases wrong
    exact closed.complains _ places fits.grounds
  · split at wrong
    · cases wrong
      exact closed.complains _ places fits.grounds
    · cases wrong

theorem stays_newList {ids : List ObjectId} (known : ∀ id ∈ ids, realm.knows before id)
    (admits : realm.Admits before context) (span : Span) :
    Eval.Stays realm (do make (.list (← addList (ids.map .object).toArray)) span context) before
      fun id after => realm.Yields after id := by
  have takes : ∀ slot ∈ (ids.map Slot.object).toArray, realm.Takes before slot := by
    intro slot member
    obtain ⟨id, among, rfl⟩ := List.mem_map.mp (List.mem_toArray.mp member)
    exact Realm.takes_object (known id among)
  apply Eval.Stays.act (stays_addList closed takes)
  intro id reached kept owns
  exact .lift (stays_make closed owns (admits.keeps kept) span)

theorem stays_retrieve {id : ObjectId} (known : realm.knows before id)
    (admits : realm.Admits before context) (span : Span) :
    (retrieve span context id).Stays realm before fun copied after =>
      realm.Yields after copied := by
  apply (stays_copy closed known).bind
  intro copied one keptOne fresh
  apply (stays_setPlace closed fresh span).bind
  intro _ two keptTwo ⟨still, placed⟩
  apply (stays_setContext closed still ((admits.keeps keptOne).keeps keptTwo)).bind
  intro _ three keptThree _
  exact stays_pure ⟨keptThree.knows copied still, .inr (keptThree.places copied placed)⟩

theorem stays_findName (admits : realm.Admits before context) (span : Span) (name : String)
    (owner : Option String) :
    (findName span name owner context).Stays realm before fun found after =>
      ∀ id ∈ found, realm.knows after id := by
  cases owner with
  | none => exact .lift (stays_lookup closed admits name)
  | some moduleName =>
      apply Eval.Stays.look (within_module? moduleName)
      intro found holds ended
      cases found with
      | none => exact stays_failAt closed admits _ span
      | some table =>
          apply Eval.Stays.look within_store
          intro store _ read
          cases read
          refine Eval.stays_pure fun id known => ?_
          exact closed.lookup holds (closed.modules holds (mem_modules ended)) known

theorem stays_accessValue (admits : realm.Admits before context) (span : Span) (name : String)
    (owner : Option String) :
    (accessValue span name owner context).Stays realm before fun id after =>
      realm.Yields after id := by
  apply (stays_findName closed admits span name owner).bind
  intro found reached kept known
  cases found with
  | none => exact stays_failAt closed (admits.keeps kept) _ span
  | some id => exact .lift (stays_retrieve closed (known id rfl) (admits.keeps kept) span)

theorem stays_yieldValue {left : Object} (fits : realm.Fits before left)
    {result : Operation.Yield} (gives : Operation.Gives before.store left result) :
    (yieldValue left.context result).Stays realm before fun slot after =>
      realm.Takes after slot := by
  have fresh : ∀ payload : Payload, realm.owns payload → payload.isCallable = false →
      (yieldValue left.context (.fresh payload)).Stays realm before fun slot after =>
        realm.Takes after slot := by
    intro payload owns uncalled
    have fitsToo : realm.Fits before { payload, context := left.context } :=
      Realm.fits_uncalled owns uncalled fits.grounds
    apply (stays_addObject closed fitsToo).bind
    intro id reached _ known
    exact stays_pure (Realm.takes_object known)
  cases gives with
  | number value => exact fresh _ (closed.number value) rfl
  | text value => exact fresh _ (closed.text value) rfl
  | @element items slot list among =>
      refine stays_of_ends _ (ends_pure slot before) fun holds => ⟨.refl holds, ?_⟩
      have owns := fits.owns
      rw [list] at owns
      exact closed.items holds owns slot among

theorem stays_operate {op : BinaryOp} {left right : Object} (fits : realm.Fits before left)
    (reports : ∀ fault, Operation.binary before.store op left right = .ok (.error fault) →
      realm.reports fault) :
    (operate op left right).Stays realm before fun slot after => realm.Takes after slot := by
  apply Eval.Stays.look within_store
  intro store _ read
  cases read
  apply Eval.Stays.settle
  intro result computed
  apply Eval.Stays.ofFault
  · intro fault refused
    rw [refused] at computed
    exact reports fault computed
  · intro yielded same
    rw [same] at computed
    exact .lift (stays_yieldValue closed fits (Operation.gives_binary computed))

theorem stays_claim (span : Span) {slot : Slot} (takes : realm.Takes before slot) :
    (claim span slot).Stays realm before fun id after => realm.Yields after id := by
  apply Eval.Stays.objectAt takes
  intro id known
  apply Eval.Stays.act (stays_setPlace closed known span)
  intro _ reached _ ⟨still, placed⟩
  exact Eval.stays_pure ⟨still, .inr placed⟩

theorem stays_loopValue (admits : realm.Admits before context) (span : Span) (block : Bool)
    {values : List ObjectId} (known : ∀ id ∈ values, realm.knows before id) :
    (loopValue span block context values).Stays realm before fun id after =>
      realm.Yields after id := by
  cases block with
  | true => exact Eval.stays_null closed
  | false => exact stays_newList closed known admits span

theorem stays_nameValue (admits : realm.Admits before context) {name : Option String}
    (binds : ∀ own ∈ name.toList, realm.Binds before context own) {id : ObjectId}
    (known : realm.knows before id) :
    (nameValue name id context).Stays realm before fun _ _ => True := by
  cases name with
  | none => exact stays_pure trivial
  | some name => exact stays_assign closed admits (binds name List.mem_cons_self) known

omit closed

include loyal

/-! ### Parts -/

theorem stays_values {items : List Script} :
    ∀ {before : Machine}, realm.Admits before context →
      (items.mapM fun item => self item context).Stays realm before fun ids after =>
        ∀ id ∈ ids, realm.knows after id := by
  induction items with
  | nil =>
      intro before admits
      exact Eval.stays_pure (List.forall_mem_nil _)
  | cons item rest ih =>
      intro before admits
      rw [List.mapM_cons]
      apply (loyal item context before admits).bind
      intro id reached kept known
      apply (ih (admits.keeps kept)).bind
      intro ids after further others
      exact Eval.stays_pure (List.forall_mem_cons.mpr ⟨further.knows id known.1, others⟩)

theorem stays_round (admits : realm.Admits before context) (body : Script) :
    (round self body context).Stays realm before fun ended after =>
      ∀ id, ended = .value id → realm.knows after id := by
  apply (loyal body context before admits).observe
  intro outcome reached _ found
  cases outcome with
  | ok id =>
      refine Eval.stays_pure fun other same => ?_
      cases same
      exact found.1
  | error interrupt =>
      cases interrupt with
      | failed fault => exact Eval.stays_throw found
      | returned id => exact Eval.stays_throw found
      | skipped => exact Eval.stays_pure fun _ same => by cases same
      | left => exact Eval.stays_pure fun _ same => by cases same

theorem stays_defaultSlots {optional : List (String × Script)} :
    ∀ {before : Machine}, realm.Admits before context →
      (defaultSlots self context optional).Stays realm before fun slots after =>
        ∀ slot ∈ slots, realm.Takes after slot := by
  induction optional with
  | nil =>
      intro before admits
      exact Eval.stays_pure (List.forall_mem_nil _)
  | cons parameter rest ih =>
      intro before admits
      have goesOn : ∀ {slot : Slot} {reached : Machine}, realm.Takes reached slot →
          realm.Keeps before reached →
            (do return slot :: (← defaultSlots self context rest) : Eval (List Slot)).Stays realm
              reached fun slots after => ∀ slot ∈ slots, realm.Takes after slot := by
        intro slot reached takes kept
        apply (ih (admits.keeps kept)).bind
        intro slots after further others
        exact Eval.stays_pure (List.forall_mem_cons.mpr ⟨takes.keeps further, others⟩)
      apply (loyal parameter.2 context before admits).observe
      intro outcome reached kept found
      have takes := takes_settled found
      cases outcome with
      | ok id => exact goesOn takes kept
      | error interrupt =>
          cases interrupt with
          | failed fault => exact Eval.stays_fail found
          | returned id => exact goesOn takes kept
          | skipped => exact goesOn takes kept
          | left => exact goesOn takes kept

theorem stays_givenValues (known : List String) {optional : List (String × Script)} :
    ∀ {before : Machine}, realm.Admits before context →
      (givenValues self context known optional).Stays realm before fun given after =>
        ∀ pair ∈ given, realm.Takes after pair.2 := by
  induction optional with
  | nil =>
      intro before admits
      exact Eval.stays_pure (List.forall_mem_nil _)
  | cons parameter rest ih =>
      intro before admits
      unfold givenValues
      split
      · apply (loyal parameter.2 context before admits).observe
        intro outcome reached kept found
        apply (ih (admits.keeps kept)).bind
        intro given after further others
        exact Eval.stays_pure
          (List.forall_mem_cons.mpr ⟨(takes_settled found).keeps further, others⟩)
      · exact Eval.stays_crash _

theorem stays_returnValue (closed : realm.Closed) (admits : realm.Admits before context)
    (value : Option Script) {post : ObjectId → Machine → Prop} :
    (returnValue self value context).Stays realm before post := by
  cases value with
  | none => exact Activity.stays_holding closed.null
  | some script =>
      apply (loyal script context before admits).bind
      intro id reached _ known
      exact Eval.stays_throw known.1

include closed

theorem stays_entries {entries : List ((Span × String) × Script)} :
    ∀ {before : Machine}, realm.Admits before context →
      (entries.mapM (entryValue self context)).Stays realm before fun pairs after =>
        ∀ pair ∈ pairs, realm.Takes after pair.2 := by
  induction entries with
  | nil =>
      intro before admits
      exact Eval.stays_pure (List.forall_mem_nil _)
  | cons entry rest ih =>
      intro before admits
      have first : (entryValue self context entry).Stays realm before fun pair after =>
          realm.Takes after pair.2 := by
        apply (loyal entry.2 context before admits).observe
        intro outcome reached kept found
        apply Eval.Stays.act (stays_make closed (closed.text _) (admits.keeps kept) entry.1.1)
        intro key after further _
        exact Eval.stays_pure ((takes_settled found).keeps further)
      rw [List.mapM_cons]
      apply first.bind
      intro pair reached kept takes
      apply (ih (admits.keeps kept)).bind
      intro pairs after further others
      exact Eval.stays_pure (List.forall_mem_cons.mpr ⟨takes.keeps further, others⟩)

theorem stays_bodyValue (admits : realm.Admits before context) (body : Script) (block : Bool) :
    (bodyValue self body block context).Stays realm before fun id after =>
      realm.Yields after id := by
  apply (loyal body context before admits).bind
  intro id reached _ known
  cases block with
  | true => exact Eval.stays_null closed
  | false => exact Eval.stays_pure known

theorem stays_branchValue {otherwise : Option (Script × Bool)}
    {cases : List (Script × Script × Bool)} :
    ∀ {before : Machine}, realm.Admits before context →
      (branchValue self context otherwise cases).Stays realm before fun id after =>
        realm.Yields after id := by
  induction cases with
  | nil =>
      intro before admits
      cases otherwise with
      | none => exact Eval.stays_null closed
      | some final => exact stays_bodyValue closed loyal admits final.1 final.2
  | cons head rest ih =>
      intro before admits
      obtain ⟨condition, body, block⟩ := head
      apply (loyal condition context before admits).bind
      intro test reached kept known
      apply Eval.Stays.object closed known.1
      intro _ _
      cases Operation.isTrue (reached.store.object test) with
      | true => exact stays_bodyValue closed loyal (admits.keeps kept) body block
      | false => exact ih (admits.keeps kept)

/-! ### Loops -/

theorem stays_ask {head : Head} (admits : realm.Admits before context)
    (binds : ∀ name ∈ head.names, realm.Binds before context name) :
    (head.ask self context).Stays realm before fun asked _ =>
      ∀ next, asked = some next → next.names = head.names := by
  cases head with
  | counting name limit step rising counter =>
      have named := binds name List.mem_cons_self
      apply Eval.Stays.look (within_scalar limit)
      intro bound _ _
      apply Eval.Stays.settle
      intro goesOn _
      cases goesOn with
      | false => exact Eval.stays_pure fun _ none => by cases none
      | true =>
          apply Eval.Stays.act (stays_makeBare closed (closed.number counter))
          intro fresh made kept counted
          apply Eval.Stays.act
            (stays_assign closed (admits.keeps kept) (named.keeps kept) counted)
          intro _ assigned _ _
          apply Eval.Stays.look (within_scalar step)
          intro stride _ _
          apply Eval.Stays.settle
          intro next _
          exact Eval.stays_pure fun _ same => by
            cases same
            rfl
  | reading name elements index =>
      have named := binds name List.mem_cons_self
      apply Eval.Stays.look (within_next elements index)
      intro element _ _
      cases element with
      | none => exact Eval.stays_pure fun _ none => by cases none
      | some slot =>
          -- Only the scalar that an element holds comes into hand, not the element.
          apply Eval.Stays.look (within_objectAt slot)
          intro id _ _
          apply Eval.Stays.look (within_scalar id)
          intro held _ _
          apply Eval.Stays.act (stays_makeBare closed (closed.number held))
          intro fresh made kept holder
          apply Eval.Stays.act
            (stays_assign closed (admits.keeps kept) (named.keeps kept) holder)
          intro _ assigned _ _
          exact Eval.stays_pure fun _ same => by
            cases same
            rfl
  | testing condition =>
      apply (loyal condition context before admits).bind
      intro test middle _ tested
      apply Eval.Stays.object closed tested.1
      intro _ _
      cases Operation.isTrue (middle.store.object test) with
      | false => exact Eval.stays_pure fun _ none => by cases none
      | true =>
          exact Eval.stays_pure fun _ same => by
            cases same
            rfl

theorem stays_rounds {body : Script} (count : Nat) :
    ∀ {head : Head} {values : List ObjectId} {before : Machine}, realm.Admits before context →
      (∀ name ∈ head.names, realm.Binds before context name) →
        (∀ id ∈ values, realm.knows before id) →
          (head.rounds self body context count values).Stays realm before
            fun values after => ∀ id ∈ values, realm.knows after id := by
  induction count with
  | zero =>
      intro head values before admits binds known
      cases head <;> exact Eval.stays_crash _
  | succ count ih =>
      intro head values before admits binds known
      rw [Head.rounds_succ]
      apply (stays_ask closed loyal admits binds).bind
      intro asked ready one names
      have knownReady := one.knowsAll known
      cases asked with
      | none => exact Eval.stays_pure fun id among => knownReady id (List.mem_reverse.mp among)
      | some next =>
          apply (stays_round loyal (admits.keeps one) body).bind
          intro ended reached two value
          have admitsReached := admits.keeps (one.trans two)
          have knownReached := two.knowsAll knownReady
          have bindsReached : ∀ name ∈ next.names, realm.Binds reached context name := by
            rw [names next rfl]
            exact fun name among => (binds name among).keeps (one.trans two)
          cases ended with
          | value id =>
              exact ih admitsReached bindsReached
                (List.forall_mem_cons.mpr ⟨value id rfl, knownReached⟩)
          | skipped => exact ih admitsReached bindsReached knownReached
          | left =>
              exact Eval.stays_pure fun id among => knownReached id (List.mem_reverse.mp among)

theorem stays_opening (header : Header) (admits : realm.Admits before context) (span : Span)
    (body : Script) (block : Bool) :
    (header.opening self context).Stays realm before fun head _ =>
      head.names = (header.script span body block).sets := by
  cases header with
  | count name first limit step =>
      apply (loyal first context before admits).bind
      intro start begun one _
      apply (loyal limit context begun (admits.keeps one)).bind
      intro stop bounded two _
      have strides : (stepValue self step context).Stays realm bounded fun _ _ => True := by
        cases step with
        | none => exact .lift ((stays_makeBare closed (closed.number _)).imp fun _ _ _ => trivial)
        | some script =>
            exact (loyal script context bounded (admits.keeps (one.trans two))).imp
              fun _ _ _ => trivial
      apply strides.bind
      intro stride _ _ _
      apply Eval.Stays.look (within_scalar start)
      intro counter _ _
      apply Eval.Stays.look (within_scalar stride)
      intro width _ _
      apply Eval.Stays.settle
      intro rising _
      exact Eval.stays_pure rfl
  | each name collection =>
      apply (loyal collection context before admits).observe
      intro outcome reached _ found
      cases outcome with
      | ok id =>
          apply Eval.Stays.look (within_collectionOf id)
          intro elements _ _
          exact Eval.stays_pure rfl
      | error interrupt =>
          cases interrupt with
          | failed fault => exact Eval.stays_fail found
          | returned id => exact Eval.stays_crash _
          | skipped => exact Eval.stays_crash _
          | left => exact Eval.stays_crash _
  | test condition => exact Eval.stays_pure rfl

theorem stays_loop (limits : Limits) (execute : Executor) (header : Header)
    (admits : realm.Admits before context) (span : Span) (body : Script) (block : Bool)
    (binds : ∀ name ∈ (header.script span body block).sets, realm.Binds before context name) :
    (step limits self execute (header.script span body block) context).Stays realm before
      fun id after => realm.Yields after id := by
  rw [step_script]
  apply (stays_opening closed loyal header admits span body block).bind
  intro head ready one names
  have bindsReady : ∀ name ∈ head.names, realm.Binds ready context name := by
    rw [names]
    exact fun name among => (binds name among).keeps one
  apply (stays_rounds closed loyal limits.rounds (admits.keeps one) bindsReady
    (List.forall_mem_nil _)).bind
  intro values reached two known
  exact stays_loopValue closed (admits.keeps (one.trans two)) span block known

/-! ### Functions and calls -/

theorem stays_functionValue (admits : realm.Admits before context) (span : Span)
    {name : Option String} (binds : ∀ own ∈ name.toList, realm.Binds before context own)
    (parameters : List String) (optional : List (String × Script)) (body : Script)
    (yields : Bool) :
    (functionValue self span name parameters optional body yields context).Stays realm before
      fun id after => realm.Yields after id := by
  apply Eval.Stays.look within_get
  intro machine _ _
  dsimp only
  split
  · exact stays_failAt closed admits _ span
  · apply (stays_defaultSlots loyal admits).bind
    intro slots computed one takes
    have takesAll : ∀ slot ∈ slots.toArray, realm.Takes computed slot :=
      fun slot among => takes slot (List.mem_toArray.mp among)
    apply Eval.Stays.act (stays_addDefaults closed takesAll)
    intro defaults added two owns
    have admitsAdded := admits.keeps (one.trans two)
    apply Eval.Stays.act (stays_make closed (owns _ rfl) admitsAdded span)
    intro id made three yields
    have bindsMade : ∀ own ∈ name.toList, realm.Binds made context own :=
      fun own among => (binds own among).keeps ((one.trans two).trans three)
    apply Eval.Stays.act (stays_nameValue closed (admitsAdded.keeps three) bindsMade yields.1)
    intro _ after four _
    exact Eval.stays_pure (yields.keeps four)

theorem stays_callValue {execute : Executor} (executes : execute.Loyal realm)
    (admits : realm.Admits before context) (span : Span) (callee : Script)
    (arguments : List Script) (optional : List (String × Script)) :
    (callValue self execute span callee arguments optional context).Stays realm before
      fun id after => realm.Yields after id := by
  apply (loyal callee context before admits).bind
  intro id visited one known
  apply Eval.Stays.act (stays_copy closed known.1)
  intro called copied two calledKnown
  apply Eval.Stays.act (stays_setPlace closed calledKnown span)
  intro _ placed three ⟨calledStill, calledPlaced⟩
  have admitsPlaced := admits.keeps ((one.trans two).trans three)
  apply (stays_values loyal admitsPlaced).bind
  intro values evaluated four valuesKnown
  apply Eval.Stays.object closed (four.knows called calledStill)
  intro _ _
  apply Eval.Stays.look (within_optionalNames _)
  intro names _ _
  apply (stays_givenValues loyal names (admitsPlaced.keeps four)).bind
  intro given reached five takes
  have since := four.trans five
  apply Eval.Stays.object closed (since.knows called calledStill)
  intro _ fits
  have entrusts : realm.Entrusts reached (reached.store.object called) values given :=
    ⟨fits, since.places called calledPlaced, five.knowsAll valuesKnown, takes⟩
  apply (executes _ values given reached entrusts).bind
  intro result after six resultTakes
  apply Eval.Stays.objectAt resultTakes
  intro value valueKnown
  exact .lift (stays_retrieve closed valueKnown
    (((admitsPlaced.keeps four).keeps five).keeps six) span)

/-! ### Executions -/

omit loyal in
theorem stays_bindAll {bindings : List (String × Slot)} :
    ∀ {before : Machine}, realm.Admits before context →
      (∀ name, realm.Binds before context name) →
        (∀ binding ∈ bindings, realm.Takes before binding.2) →
        (bindAll context bindings).Stays realm before fun _ _ => True := by
  induction bindings with
  | nil =>
      intro before admits binds takes
      exact stays_pure trivial
  | cons binding rest ih =>
      intro before admits binds takes
      obtain ⟨takesHere, takesRest⟩ := List.forall_mem_cons.mp takes
      apply Stays.look (within_objectAt binding.2)
      intro id _ ended
      have known : realm.knows before id := by
        cases held : binding.2 with
        | object other =>
            rw [held] at ended
            cases ended
            exact takesHere id held
        | bare scalar =>
            rw [held] at ended
            cases ended
        | nothing =>
            rw [held] at ended
            cases ended
      apply (stays_setContext closed known admits).bind
      intro _ claimed one _
      apply (stays_assign closed (admits.keeps one) ((binds binding.1).keeps one)
        (one.knows id known)).bind
      intro _ assigned two _
      exact ih ((admits.keeps one).keeps two) (fun name => (binds name).keeps (one.trans two))
        fun other among => (takesRest other among).keeps (one.trans two)

omit loyal in
theorem stays_callContext (name : String) (fits : realm.Fits before function)
    (places : realm.places function) (callable : function.payload.isCallable = true) :
    (callContext name function).Stays realm before fun context after =>
      realm.Admits after context ∧ ∀ name, realm.Binds after context name := by
  cases known : function.context with
  | none =>
      unfold callContext
      rw [known]
      exact stays_crash .missingPart
  | some outer =>
      refine stays_of_ends _ (ends_callContext name known before) fun holds => ?_
      have outside := fits.admits callable known
      have entered := closed.enter holds outside.reaches
      refine ⟨entered.1, ⟨fun table same => ?_, closed.entered name _ places outside.grounds⟩,
        fun own table same => ?_⟩
      · cases same
        exact entered.2
      · cases same
        exact closed.fresh own holds

section

variable {function : Object} {closure : Closure} {arguments : List ObjectId}
  {given : List (String × Slot)} (payload : function.payload = .function closure)
  (entrusts : realm.Entrusts before function arguments given)

include payload entrusts

theorem stays_conduct (admits : realm.Admits before context)
    (binds : ∀ name, realm.Binds before context name) :
    (conduct self function closure arguments context).Stays realm before fun slot after =>
      realm.Takes after slot := by
  have owns : realm.owns (.function closure) := payload ▸ entrusts.fits.owns
  apply Eval.Stays.ofFault
    (reports_checkCount closed entrusts.fits entrusts.places closure.name closure.parameters
      arguments)
  intro _ _
  apply Eval.Stays.act (stays_bindAll closed admits binds (Realm.takes_zip entrusts.knows _))
  intro _ bound one _
  apply Eval.Stays.look within_store
  intro store holds read
  cases read
  have takesDefaults : ∀ binding ∈ closure.optional.zip
      (bound.store.defaultValues closure.defaults).toList, realm.Takes bound binding.2 := by
    intro binding among
    have member := Array.mem_toList_iff.mp (List.of_mem_zip among).2
    exact closed.defaultValues holds owns binding.2 member
  apply Eval.Stays.act (stays_bindAll closed (admits.keeps one)
    (fun name => (binds name).keeps one) takesDefaults)
  intro _ reached two _
  apply (loyal closure.body context reached ((admits.keeps one).keeps two)).observe
  intro outcome after _ found
  cases outcome with
  | ok id =>
      cases closure.yields with
      | true => exact Eval.stays_pure (Realm.takes_object found.1)
      | false => exact Activity.stays_holding fun holds => Realm.takes_object (closed.null holds)
  | error interrupt =>
      cases interrupt with
      | failed fault => exact Eval.stays_throw found
      | returned id => exact Eval.stays_pure (Realm.takes_object found)
      | skipped => exact Eval.stays_throw found
      | left => exact Eval.stays_throw found

theorem stays_callFunction :
    (callFunction self function closure arguments given).Stays realm before fun slot after =>
      realm.Takes after slot := by
  have owns : realm.owns (.function closure) := payload ▸ entrusts.fits.owns
  have callable : function.payload.isCallable = true := by
    rw [payload]
    rfl
  apply Eval.Stays.act
    (stays_callContext closed closure.name entrusts.fits entrusts.places callable)
  intro context entered one ⟨admits, binds⟩
  have overridden : (changeStore (·.modifyDefaults closure.defaults
      (overrideDefaults closure.optional given))).Stays realm entered fun _ _ => True := by
    refine stays_of_ends (entered.withStore _) rfl fun holds => ⟨?_, trivial⟩
    apply closed.modifyDefaults holds owns
    intro slot among
    rcases mem_overrideDefaults among with old | ⟨pair, member, same⟩
    · exact closed.defaultValues holds owns slot old
    · exact same ▸ (entrusts.takes pair member).keeps one
  apply Eval.Stays.act overridden
  intro _ reached two _
  exact stays_conduct closed loyal payload (entrusts.keeps (one.trans two)) (admits.keeps two)
    fun name => (binds name).keeps two

end

theorem stays_execute (serves : realm.Serves) {arguments : List ObjectId}
    {given : List (String × Slot)} (entrusts : realm.Entrusts before function arguments given)
    (spares : realm.Spares function arguments) :
    (execute self function arguments given).Stays realm before fun slot after =>
      realm.Takes after slot := by
  unfold execute
  cases payload : function.payload with
  | function closure => exact stays_callFunction closed loyal payload entrusts
  | builtin name =>
      exact serves self loyal function name arguments given before entrusts spares payload
  | _ => exact Eval.stays_crash _

/-! ### Loading -/

/-- Running a text stays in a realm from which its table can be reached, and only such faults come
of it as are reported. -/
theorem stays_runSource (source : Source) (moduleName : String)
    (home : moduleName = "" → realm.holds before → realm.reaches before before.globals) :
    (runSource self source moduleName).Stays realm before fun result _ =>
      ∀ fault, result = .error fault → realm.reports fault := by
  unfold runSource
  cases Lexer.read source with
  | crashed cause => exact stays_crash cause
  | refused cause start stop =>
      refine stays_pure fun fault same => ?_
      cases same
      exact closed.refuses cause start stop
  | tokens tokens =>
      apply Stays.look (within_settle _)
      rintro ⟨attempt, stop⟩ _ _
      cases attempt with
      | failure fault =>
          refine stays_pure fun fault same => ?_
          cases same
          exact closed.rejects _
      | success tree =>
          dsimp -zeta only
          extract_lets tabled
          have stays : ∀ table, (∀ own, table = some own → realm.reaches before own) →
              (tabled table).Stays realm before fun result _ =>
                ∀ fault, result = .error fault → realm.reports fault := by
            intro table reaches
            have admits : realm.Admits before [{ name := "<program>", entered := none, table }] :=
              ⟨reaches, closed.program table⟩
            apply Stays.bind (loyal tree _ before admits)
            intro outcome reached _ found
            split
            · exact stays_pure fun _ same => by cases same
            · refine stays_pure fun fault same => ?_
              cases same
              exact found
            · exact stays_pure fun _ same => by cases same
          split
          next unnamed =>
            apply Stays.look within_get
            intro machine holds got
            cases got
            apply Stays.look (within_pure _)
            intro table _ same
            cases same
            refine stays _ fun own same => ?_
            cases same
            exact home unnamed holds
          next =>
            apply Stays.look (within_module? moduleName)
            intro found holds ended
            refine stays found fun own same => ?_
            subst same
            exact closed.modules holds (mem_modules ended)

theorem stays_loadScript {call : Invocation} (hears : realm.Hears call) (path : ObjectId)
    (moduleName : String)
    (home : ∀ {machine}, moduleName = "" → realm.holds machine →
      realm.reaches machine machine.globals) :
    (loadScript self call path moduleName).Stays realm before fun slot after =>
      realm.Takes after slot := by
  apply (Invocation.stays_text hears none path).bind
  intro text reached _ _
  split
  · exact Eval.stays_fail (hears _)
  · apply Eval.Stays.look within_get
    intro machine _ _
    cases machine.folder.read text with
    | error fault => exact Eval.stays_fail (hears _)
    | ok content =>
        apply Eval.Stays.act (stays_runSource closed loyal _ moduleName home)
        intro result after _ _
        cases result with
        | ok value =>
            exact Activity.stays_holding fun holds => Realm.takes_object (closed.null holds)
        | error fault =>
            apply Eval.Stays.look (within_part _)
            intro message _ _
            exact Eval.stays_fail (hears _)

/-! ### All trees -/

theorem stays_step {execute : Executor} (executes : execute.Loyal realm) (signals : realm.signals)
    (limits : Limits) {script : Script} (admits : realm.Admits before context)
    (permits : realm.Permits self script context before) :
    (step limits self execute script context).Stays realm before fun id after =>
      realm.Yields after id := by
  cases script with
  | number span literal => exact .lift (stays_make closed (closed.number _) admits span)
  | string span text => exact .lift (stays_make closed (closed.text text) admits span)
  | list span items =>
      apply (stays_values loyal admits).bind
      intro ids reached kept known
      exact stays_newList closed known (admits.keeps kept) span
  | dict span entries =>
      apply (stays_entries closed loyal admits).bind
      intro pairs reached one takes
      apply Eval.Stays.act (stays_addDict closed fun pair among =>
        takes pair (List.mem_toArray.mp among))
      intro id added two owns
      exact .lift (stays_make closed owns (admits.keeps (one.trans two)) span)
  | access span name owner => exact stays_accessValue closed admits span name owner
  | assign span name value =>
      apply (loyal value context before admits).bind
      intro id reached kept yields
      have binds := permits.binds name List.mem_cons_self
      apply Eval.Stays.act (stays_assign closed (admits.keeps kept) (binds.keeps kept) yields.1)
      intro _ after further _
      exact Eval.stays_pure (yields.keeps further)
  | binary span op left right =>
      apply (loyal left context before admits).ends.bind
      intro a middle kept ⟨yields, first⟩
      apply (loyal right context middle (admits.keeps kept)).ends.bind
      intro b reached further ⟨yieldsToo, second⟩
      have both : ∀ id ∈ [a, b], realm.Yields reached id :=
        List.forall_mem_cons.mpr ⟨yields.keeps further, List.forall_mem_singleton.mpr yieldsToo⟩
      apply Eval.Stays.object closed (further.knows a yields.1)
      intro holds fits
      apply Eval.Stays.object closed yieldsToo.1
      intro _ _
      apply Eval.Stays.bind (stays_operate closed fits fun fault refused =>
        permits.reports holds both (.binary first second refused))
      intro slot after _ takes
      exact stays_claim closed span takes
  | unary span op operand =>
      apply (loyal operand context before admits).ends.bind
      intro id reached _ ⟨yields, evaluated⟩
      have only : ∀ other ∈ [id], realm.Yields reached other :=
        List.forall_mem_singleton.mpr yields
      cases op with
      | plus => exact stays_claim closed span (Realm.takes_object yields.1)
      | minus =>
          apply Eval.Stays.object closed yields.1
          intro holds fits
          apply Eval.Stays.bind (stays_operate closed fits fun fault refused =>
            permits.reports holds only (.minus evaluated refused))
          intro slot after _ takes
          exact stays_claim closed span takes
      | negation =>
          apply Eval.Stays.object closed yields.1
          intro holds fits
          apply Eval.Stays.ofFault fun fault refused =>
            permits.reports holds only (.negation evaluated refused)
          intro result computed
          apply Eval.Stays.act
            (stays_yieldValue closed fits (Operation.gives_negation computed))
          intro slot after _ takes
          exact stays_claim closed span takes
  | branch span cases otherwise => exact stays_branchValue closed loyal admits
  | count span name first limit step body block =>
      exact stays_loop closed loyal limits execute (.count name first limit step) admits span body
        block permits.binds
  | each span name collection body block =>
      exact stays_loop closed loyal limits execute (.each name collection) admits span body block
        permits.binds
  | loop span condition body block =>
      exact stays_loop closed loyal limits execute (.test condition) admits span body block
        permits.binds
  | function span name parameters optional body yields =>
      exact stays_functionValue closed loyal admits span permits.binds parameters optional body
        yields
  | call span callee arguments optional =>
      exact stays_callValue closed loyal executes admits span callee arguments optional
  | giveBack span value => exact stays_returnValue loyal closed admits value
  | skip span => exact Eval.stays_throw signals
  | leave span => exact Eval.stays_throw signals

end Evaluator

/-! ### Jobs -/

namespace Realm

variable (realm : Realm)

def Grants (machine : Machine) : Job → Prop
  | .visit _ context => realm.Admits machine context
  | .execution function arguments given => realm.Entrusts machine function arguments given

def Accepts (machine : Machine) : (job : Job) → job.Answer → Prop
  | .visit _ _, id => realm.Yields machine id
  | .execution _ _ _, slot => realm.Takes machine slot

/-- At a moment nothing comes up that a realm forbids. -/
def Allows (limits : Limits) (moment : Moment) : Prop :=
  match moment.job with
  | .visit script context => ∀ depth, moment.depth = depth + 1 →
      realm.Permits (Evaluator.atDepth limits depth) script context moment.machine
  | .execution function arguments _ => realm.Spares function arguments

structure Lenient : Prop where
  reports : ∀ fault, realm.reports fault := by exact fun _ => trivial
  binds : ∀ machine table name, realm.binds machine table name := by exact fun _ _ _ => trivial
  reckons : ∀ id, realm.reckons id := by exact fun _ => trivial

variable {realm} in
theorem Lenient.allows (lenient : realm.Lenient) (limits : Limits) (moment : Moment) :
    realm.Allows limits moment := by
  obtain ⟨depth, job, machine⟩ := moment
  cases job with
  | visit script context =>
      intro _ _
      exact ⟨fun _ _ _ _ => lenient.binds _ _ _, fun _ _ _ => lenient.reports _⟩
  | execution function arguments given => exact fun _ id _ => lenient.reckons id

end Realm

namespace Halts

variable {realm : Realm} {limits : Limits} {halts : Halts}

theorem permits_evaluator {depth : Nat} {script : Script} {context : Context} {before : Machine}
    (permits : realm.Permits (Evaluator.atDepth limits depth) script context before) :
    realm.Permits (halts.evaluator limits depth) script context before where
  binds := permits.binds
  reports holds yields refuses := by
    apply permits.reports holds yields
    cases refuses with
    | binary first second refused =>
        exact .binary (Halts.follows depth first) (Halts.follows depth second) refused
    | minus evaluated refused => exact .minus (Halts.follows depth evaluated) refused
    | negation evaluated refused => exact .negation (Halts.follows depth evaluated) refused

theorem stays_guard {α : Type} {depth : Nat} {job : Job} {evaluation : Eval α} {before : Machine}
    {post : α → Machine → Prop}
    (goesOn : halts ⟨depth, job, before⟩ = none → evaluation.Stays realm before post) :
    (halts.guard depth job evaluation).Stays realm before post := by
  apply Eval.Stays.look Activity.within_get
  intro machine _ ended
  cases ended
  cases here : halts ⟨depth, job, before⟩ with
  | some cause => exact Eval.stays_crash cause
  | none => exact goesOn here

/-- Every job stays in a closed realm in which the functions of the language do, if it is halted
wherever something forbidden comes up. -/
theorem stays_perform (closed : realm.Closed) (serves : realm.Serves) (signals : realm.signals)
    (careful : ∀ moment, halts moment = none → realm.Allows limits moment) (depth : Nat)
    (job : Job) :
    ∀ before : Machine, realm.Grants before job →
      (halts.perform limits depth job).Stays realm before fun answer after =>
        realm.Accepts after job answer := by
  induction depth, job using Job.induction with
  | bottom script context =>
      intro before granted
      exact stays_guard fun _ => Eval.stays_crash _
  | execution depth visits function arguments given =>
      intro before granted
      have loyal : (halts.evaluator limits depth).Loyal realm :=
        fun script context before admits => visits script context before admits
      refine stays_guard fun goesOn => ?_
      exact Evaluator.stays_execute closed loyal serves granted (careful _ goesOn)
  | visit depth jobs script context =>
      intro before granted
      have loyal : (halts.evaluator limits depth).Loyal realm :=
        fun script context before admits => jobs (.visit script context) before admits
      have executes : Executor.Loyal realm fun function arguments given =>
          halts.perform limits depth (.execution function arguments given) :=
        fun function arguments given before entrusts =>
          jobs (.execution function arguments given) before entrusts
      refine stays_guard fun goesOn => ?_
      exact Evaluator.stays_step closed loyal executes signals limits granted
        (permits_evaluator (careful _ goesOn depth rfl))

end Halts

theorem Moment.keeps_of_unmet {realm : Realm} {limits : Limits} {avoided : Moment → Prop}
    (closed : realm.Closed) (serves : realm.Serves) (signals : realm.signals)
    (careful : ∀ moment, ¬avoided moment → realm.Allows limits moment) {start : Moment}
    (granted : realm.Grants start.machine start.job) (holds : realm.holds start.machine)
    (unmet : ∀ moment, avoided moment → ¬start.Meets limits moment)
    {outcome : Except Interrupt start.job.Answer} {after : Machine}
    (ends : (start.job.perform limits start.depth).Ends start.machine outcome after) :
    realm.Keeps start.machine after := by
  have stays := Halts.stays_perform closed serves signals
    (fun moment goesOn => careful moment (Halts.not_among goesOn)) start.depth start.job
    start.machine granted
  have same := (Halts.heeds_perform limits start.depth start.job).ignores unmet (.among avoided)
    fun _ => Halts.of_among
  exact Activity.Stays.keeps stays holds
    (same.trans ((Halts.result_nowhere limits _ _ _).trans ends))

theorem Evaluator.loyal_atDepth {realm : Realm} (closed : realm.Closed) (serves : realm.Serves)
    (signals : realm.signals) (lenient : realm.Lenient) (limits : Limits) (depth : Nat) :
    (atDepth limits depth).Loyal realm := by
  intro script context before admits
  have stays := @Halts.stays_perform realm limits .nowhere closed serves signals
    (fun moment _ => lenient.allows limits moment) depth (.visit script context) before admits
  rw [Halts.perform_nowhere] at stays
  exact stays

/-! ### Sessions -/

structure Realm.Hosts (realm : Realm) : Prop where
  closed : realm.Closed
  serves : realm.Serves
  signals : realm.signals
  globals : ∀ {machine}, realm.holds machine → realm.reaches machine machine.globals

namespace Machine

variable {realm : Realm} {limits : Limits} {avoided : Moment → Prop} {before machine : Machine}

section

variable {halts : Halts} (hosts : realm.Hosts)
  (careful : ∀ moment, halts moment = none → realm.Allows limits moment)

include hosts careful

theorem stays_course (source : Source) (moduleName : String) :
    (course limits source moduleName halts).Stays realm before fun result _ =>
      ∀ fault, result = .error fault → realm.reports fault := by
  have loyal : (halts.evaluator limits limits.depth).Loyal realm :=
    fun script context machine admits =>
      Halts.stays_perform hosts.closed hosts.serves hosts.signals careful limits.depth
        (.visit script context) machine admits
  exact .lift (Evaluator.stays_runSource hosts.closed loyal source moduleName fun _ holds =>
    hosts.globals holds)

theorem reports_of_ends (holds : realm.holds before) {source : Source} {moduleName : String}
    {fault : Fault}
    (ends : (course limits source moduleName halts).Ends before (.ok (.error fault)) machine) :
    realm.reports fault :=
  Activity.Stays.finds (stays_course hosts careful source moduleName) holds ends fault rfl

theorem holds_course (holds : realm.holds before) (source : Source) (moduleName : String) :
    realm.holds ((course limits source moduleName halts).result before).2 :=
  (Activity.Stays.keeps (stays_course hosts careful source moduleName) holds rfl).holds

end

variable (hosts : realm.Hosts) (initial : ∀ folder input, realm.holds (.initial folder input))

include hosts initial

theorem Session.holds (careful : ∀ moment, ¬avoided moment → realm.Allows limits moment)
    (session : Session limits avoided machine) : realm.holds machine := by
  induction session with
  | start folder input => exact initial folder input
  | @run before session source moduleName avoids ih =>
      -- Nothing that is avoided is met, so halting there makes no difference.
      have same : (course limits source moduleName (.among avoided)).result before =
          (course limits source moduleName .nowhere).result before :=
        (heeds_course source moduleName).ignores avoids _ fun _ => Halts.of_among
      have ran := holds_course hosts (fun moment goesOn => careful moment (Halts.not_among goesOn))
        ih source moduleName
      rw [same, course_nowhere, result_lift] at ran
      exact ran

/-- A realm in which sessions start and texts can be run holds all machines that are reached before
anything forbidden comes up. -/
theorem Reached.holds (careful : ∀ moment, ¬avoided moment → realm.Allows limits moment)
    (reached : Reached limits avoided machine) : realm.holds machine := by
  cases reached with
  | between session => exact session.holds hosts initial careful
  | @amid before session source moduleName moment meets =>
      have carefulHere : ∀ other : Moment,
          Halts.among (fun other => other = moment ∨ avoided other) other = none →
            realm.Allows limits other :=
        fun other goesOn => careful other fun avoids => Halts.not_among goesOn (.inr avoids)
      have stopped := meets (.among fun other => other = moment ∨ avoided other) .tooDeep
        (Halts.among_self (.inl rfl)) fun _ => Halts.of_among
      have ran := holds_course hosts carefulHere (session.holds hosts initial careful) source
        moduleName
      rw [stopped] at ran
      exact ran

end Machine

end Lingo
