/-
Evaluation keeps values well formed.

One level of evaluation does deeds only and comes to a value, if the evaluator below it does and if
the tree is tidy.  What lets something slip here is a loop over elements of which one holds a text,
and a loop that counts from a text.
-/

import Lingo.Proofs.Eval.Loops
import Lingo.Proofs.Eval.Services

namespace Lingo

/-- An evaluator that does deeds only, and evaluates tidy trees to values. -/
def Evaluator.Reliable (slips : Prop) (self : Evaluator) : Prop :=
  ∀ script context before, before.store.Sound → script.Tidy →
    (self script context).Proceeds slips before fun id after => after.store.IsValue id

/-- An executor that does deeds only, if the body of the function is tidy and the arguments are
values. -/
def Executor.Reliable (slips : Prop) (execute : Executor) : Prop :=
  ∀ function arguments given before, before.store.Sound →
    (∀ closure, function.payload = .function closure → closure.body.Tidy) →
      (∀ id ∈ arguments, before.store.IsValue id) →
        (execute function arguments given).Behaves slips before

namespace Operation

/-- What a binary operator that does not refuse its operands yields: what two numbers come to, a
text, or an element of the left operand. -/
inductive Computes (store : Store) (op : BinaryOp) (left right : Object) : Yield → Prop where
  | number {a b held : Scalar} (first : left.payload = .number a)
      (second : right.payload = .number b) (outcome : scalars op a b = .ok held) :
      Computes store op left right (.fresh (.number held))
  | text (value : String) : Computes store op left right (.fresh (.text value))
  | element {items : ListId} {slot : Slot} (list : left.payload = .list items)
      (among : slot ∈ store.items items) : Computes store op left right (.existing slot)

theorem computes_binary {store : Store} {op : BinaryOp} {left right : Object} {result : Yield}
    (computed : binary store op left right = .ok (.ok result)) :
    Computes store op left right result := by
  unfold binary at computed
  split at computed
  next a b first second =>
    unfold numbers at computed
    split at computed
    · cases computed
    · cases outcome : scalars op a b with
      | error cause =>
          rw [outcome] at computed
          cases computed
      | ok held =>
          rw [outcome] at computed
          cases computed
          exact .number first second outcome
  next =>
    split at computed
    · cases computed
      exact .text _
    · cases computed
  next a b _ _ =>
    split at computed
    · cases outcome : Scalar.repeated a b with
      | error cause =>
          rw [outcome] at computed
          cases computed
      | ok text =>
          rw [outcome] at computed
          cases computed
          exact .text text
    · cases computed
  next =>
    split at computed
    · cases computed
    · cases computed
  next items index list _ =>
    split at computed
    · dsimp only at computed
      split at computed
      next slot found =>
        cases computed
        obtain ⟨place, _, known⟩ := Option.bind_eq_some_iff.mp found
        exact .element list (Array.mem_of_getElem? known)
      next => cases computed
    · cases computed
  next => cases computed

end Operation

namespace Evaluator

open Activity

variable {slips : Prop} {self : Evaluator} {context : Context} {before : Machine}
  {optional : List (String × Script)} {body : Script} {real : Evaluator}

theorem Reliable.visit (reliable : self.Reliable slips) (sound : before.store.Sound)
    {script : Script} (tidy : script.Tidy) :
    (self script context).Proceeds slips before fun id after => after.store.IsValue id :=
  reliable script context before sound tidy

/-! ### Simple values -/

theorem proceeds_value (payload : Payload) (sane : payload.Sane slips before.store)
    (kind : payload.isKind = true) (span : Span) :
    Eval.Proceeds slips (liftM (make payload span context)) before fun id after =>
      after.store.IsValue id := by
  apply (Eval.Proceeds.lift (proceeds_make sane span context)).imp
  intro id after _ made
  exact (congrArg Payload.isKind made).trans kind

theorem proceeds_values (reliable : self.Reliable slips) {items : List Script} :
    ∀ {before : Machine}, before.store.Sound → (∀ item ∈ items, item.Tidy) →
      (items.mapM fun item => self item context).Proceeds slips before fun ids after =>
        ∀ id ∈ ids, after.store.IsValue id := by
  induction items with
  | nil =>
      intro before sound tidy
      exact Eval.proceeds_pure (List.forall_mem_nil _)
  | cons item rest ih =>
      intro before sound tidy
      obtain ⟨tidyItem, tidyRest⟩ := List.forall_mem_cons.mp tidy
      rw [List.mapM_cons]
      apply (reliable.visit sound tidyItem).bind
      intro id reached done value
      apply (ih (sound.deeds done) tidyRest).bind
      intro ids after further values
      exact Eval.proceeds_pure (List.forall_mem_cons.mpr ⟨value.deeds further, values⟩)

theorem proceeds_newList {ids : List ObjectId} (values : ∀ id ∈ ids, before.store.IsValue id)
    (span : Span) :
    Eval.Proceeds slips (do make (.list (← addList (ids.map .object).toArray)) span context) before
      fun id after => after.store.IsValue id := by
  have fit : ∀ slot ∈ (ids.map Slot.object).toArray, before.store.Fits slips slot := by
    intro slot member
    obtain ⟨id, among, rfl⟩ := List.mem_map.mp (List.mem_toArray.mp member)
    exact .inl ⟨id, rfl, values id among⟩
  apply Eval.Proceeds.act (proceeds_addList fit)
  intro id reached _ _
  exact proceeds_value (.list id) trivial rfl span

theorem proceeds_listValue (reliable : self.Reliable slips) (sound : before.store.Sound)
    (span : Span) {items : List Script} (tidy : ∀ item ∈ items, item.Tidy) :
    (listValue self span items context).Proceeds slips before fun id after =>
      after.store.IsValue id := by
  apply (proceeds_values reliable sound tidy).bind
  intro ids reached _ values
  exact proceeds_newList values span

theorem proceeds_entries (reliable : self.Reliable slips)
    {entries : List ((Span × String) × Script)} :
    ∀ {before : Machine}, before.store.Sound → (∀ entry ∈ entries, entry.2.Tidy) →
      (entries.mapM (entryValue self context)).Proceeds slips before fun pairs after =>
        (pairs.map fun pair => after.store.text? pair.1) =
          entries.map fun entry => some entry.1.2 := by
  induction entries with
  | nil =>
      intro before sound tidy
      exact Eval.proceeds_pure rfl
  | cons entry rest ih =>
      intro before sound tidy
      obtain ⟨tidyEntry, tidyRest⟩ := List.forall_mem_cons.mp tidy
      have first : (entryValue self context entry).Proceeds slips before fun pair after =>
          after.store.text? pair.1 = some entry.1.2 := by
        -- The value comes first, and whatever interrupts it is passed over.
        apply (reliable.visit sound tidyEntry).observe
        intro outcome reached _ _
        have sane : (Payload.text entry.1.2).Sane slips reached.store := trivial
        apply Eval.Proceeds.act (proceeds_make sane _ _)
        intro key after _ made
        refine Eval.proceeds_pure ?_
        unfold Store.text?
        rw [made]
      rw [List.mapM_cons]
      apply first.bind
      intro pair reached done named
      apply (ih (sound.deeds done) tidyRest).bind
      intro pairs after further texts
      refine Eval.proceeds_pure ?_
      rw [List.map_cons, List.map_cons, texts, Store.text?_of_deeds named further]

theorem proceeds_dictValue (reliable : self.Reliable slips) (sound : before.store.Sound)
    (span : Span) {entries : List ((Span × String) × Script)}
    (differ : (entries.map (·.1.2)).Nodup) (tidy : ∀ entry ∈ entries, entry.2.Tidy) :
    (dictValue self span entries context).Proceeds slips before fun id after =>
      after.store.IsValue id := by
  apply (proceeds_entries reliable sound tidy).bind
  intro pairs reached _ texts
  have named : (pairs.toArray.toList.map Prod.fst).map reached.store.text? =
      entries.map fun entry => some entry.1.2 := by
    rw [List.map_map]
    exact texts
  have distinct : reached.store.Distinct (pairs.toArray.toList.map Prod.fst) := by
    constructor
    · intro key member
      have among := List.mem_map_of_mem (f := reached.store.text?) member
      rw [named] at among
      obtain ⟨entry, _, same⟩ := List.mem_map.mp among
      exact ⟨entry.1.2, same.symm⟩
    · have wrapped : ((entries.map (·.1.2)).map some).Nodup :=
        List.pairwise_map.mpr
          (differ.imp fun different same => different (Option.some.inj same))
      rw [List.map_map] at wrapped
      rw [named]
      exact wrapped
  apply Eval.Proceeds.act (proceeds_addDict distinct)
  intro id after _ inside
  exact proceeds_value (.dict id) inside rfl span

theorem behaves_failAt {α : Type} {post : α → Machine → Prop} (complaint : Complaint)
    (span : Span) : (failAt complaint span context : Eval α).Proceeds slips before post :=
  Eval.proceeds_fail _

theorem proceeds_retrieve (span : Span) (id : ObjectId) :
    (retrieve span context id).Proceeds slips before fun copied after =>
      after.store.IsValue copied := by
  apply (proceeds_copy id).bind
  intro copied reached _ value
  apply (proceeds_setPlace copied span).bind
  intro _ placed done _
  apply (proceeds_setContext copied context).bind
  intro _ after further _
  exact proceeds_pure ((value.deeds done).deeds further)

theorem behaves_findName (span : Span) (name : String) (owner : Option String) :
    (findName span name owner context).Behaves slips before := by
  cases owner with
  | none => exact (Eval.Proceeds.lift (proceeds_still (within_lookup context name))).behaves
  | some moduleName =>
      apply Eval.Proceeds.still (within_module? moduleName)
      intro table _
      cases table with
      | none => exact behaves_failAt _ span
      | some table => exact .after (ends_store before) (Eval.proceeds_pure trivial)

theorem proceeds_accessValue (span : Span) (name : String) (owner : Option String) :
    (accessValue span name owner context).Proceeds slips before fun id after =>
      after.store.IsValue id := by
  apply (behaves_findName span name owner).bind
  intro found reached _ _
  cases found with
  | none => exact behaves_failAt _ span
  | some id => exact .lift (proceeds_retrieve span id)

theorem proceeds_assignValue (reliable : self.Reliable slips) (sound : before.store.Sound)
    (name : String) {value : Script} (tidy : value.Tidy) :
    (assignValue self name value context).Proceeds slips before fun id after =>
      after.store.IsValue id := by
  apply (reliable.visit sound tidy).bind
  intro id reached _ known
  apply Eval.Proceeds.act (proceeds_assign context name id)
  intro _ after done _
  exact Eval.proceeds_pure (known.deeds done)

/-! ### Operators -/

def YieldFits (slips : Prop) (store : Store) : Operation.Yield → Prop
  | .fresh payload => payload.Sane slips store ∧ payload.isKind = true
  | .existing slot => ∃ items, slot ∈ store.items items

/-- An operand holds no text in a number unless some number of the store does. -/
def Plain (store : Store) (operand : Object) : Prop :=
  ∀ held, operand.payload = .number held → held.isText = false ∨ store.HasTextNumber

theorem plain_object (store : Store) (id : ObjectId) : Plain store (store.object id) :=
  fun _ known => Store.isText_or_hasTextNumber known

theorem yieldFits_binary {store : Store} {op : BinaryOp} {left right : Object}
    (plainLeft : Plain store left) (plainRight : Plain store right) {result : Operation.Yield}
    (computed : Operation.binary store op left right = .ok (.ok result)) :
    YieldFits slips store result := by
  cases Operation.computes_binary computed with
  | number knownLeft knownRight outcome =>
      refine ⟨fun isText => ?_, rfl⟩
      rcases plainLeft _ knownLeft with numberLeft | already
      · rcases plainRight _ knownRight with numberRight | already
        · rw [Operation.numerical_scalars op numberLeft numberRight _ outcome] at isText
          cases isText
        · exact .inr already
      · exact .inr already
  | text value => exact ⟨trivial, rfl⟩
  | element list among => exact ⟨_, among⟩

theorem proceeds_yieldValue (sound : before.store.Sound) {owner : Option Context}
    {result : Operation.Yield} (fits : YieldFits slips before.store result) :
    (yieldValue owner result).Proceeds slips before fun slot after =>
      ∀ id, slot = .object id → after.store.IsValue id := by
  cases result with
  | fresh payload =>
      have sane : (Object.mk payload none none owner).payload.Sane slips before.store := fits.1
      apply (proceeds_addObject sane).bind
      intro id reached _ made
      refine proceeds_pure fun other same => ?_
      cases same
      exact (congrArg Payload.isKind made).trans fits.2
  | existing slot =>
      obtain ⟨items, among⟩ := fits
      refine proceeds_pure fun id same => ?_
      rcases sound.elements items slot among with ⟨value, known, held⟩ | ⟨bare, known⟩
      · rw [known] at same
        cases same
        exact held
      · rw [known] at same
        cases same

theorem proceeds_operate (sound : before.store.Sound) (op : BinaryOp) {left right : Object}
    (plainLeft : Plain before.store left) (plainRight : Plain before.store right) :
    (operate op left right).Proceeds slips before fun slot after =>
      ∀ id, slot = .object id → after.store.IsValue id := by
  apply Eval.Proceeds.after (ends_store before)
  apply Eval.after_settle
  intro result computed
  cases result with
  | error fault => exact Eval.proceeds_fail fault
  | ok result =>
      have fits : YieldFits slips before.store result :=
        yieldFits_binary plainLeft plainRight computed
      exact .lift (proceeds_yieldValue sound fits)

theorem proceeds_claim (span : Span) {slot : Slot}
    (values : ∀ id, slot = .object id → before.store.IsValue id) :
    (claim span slot).Proceeds slips before fun id after => after.store.IsValue id := by
  apply Eval.after_objectAt
  intro id same
  apply Eval.Proceeds.act (proceeds_setPlace id span)
  intro _ after done _
  exact Eval.proceeds_pure ((values id same).deeds done)

section

variable (reliable : self.Reliable slips)

include reliable

theorem proceeds_binaryValue (sound : before.store.Sound) (span : Span) (op : BinaryOp)
    {left right : Script} (tidyLeft : left.Tidy) (tidyRight : right.Tidy) :
    (binaryValue self span op left right context).Proceeds slips before fun id after =>
      after.store.IsValue id := by
  apply (reliable.visit sound tidyLeft).bind
  intro a middle done _
  apply (reliable.visit (sound.deeds done) tidyRight).bind
  intro b reached further _
  apply Eval.Proceeds.after (ends_object a reached)
  apply Eval.Proceeds.after (ends_object b reached)
  apply (proceeds_operate ((sound.deeds done).deeds further) op (plain_object _ a)
    (plain_object _ b)).bind
  intro slot after _ values
  exact proceeds_claim span values

theorem proceeds_unaryValue (sound : before.store.Sound) (span : Span) (op : UnaryOp)
    {operand : Script} (tidy : operand.Tidy) :
    (unaryValue self span op operand context).Proceeds slips before fun id after =>
      after.store.IsValue id := by
  apply (reliable.visit sound tidy).bind
  intro id reached done value
  have soundReached := sound.deeds done
  cases op with
  | plus =>
      apply proceeds_claim
      intro other same
      cases same
      exact value
  | minus =>
      apply Eval.Proceeds.after (ends_object id reached)
      have plainFactor : Plain reached.store Operation.minusOne := by
        intro held known
        cases known
        exact .inl rfl
      apply (proceeds_operate soundReached .mul (plain_object _ id) plainFactor).bind
      intro slot after _ values
      exact proceeds_claim span values
  | negation =>
      apply Eval.Proceeds.after (ends_object id reached)
      have fits : ∀ result, Operation.negation (reached.store.object id) = .ok result →
          YieldFits slips reached.store result := by
        intro result computed
        unfold Operation.negation at computed
        split at computed
        · cases computed
          exact ⟨Store.sane_number rfl, rfl⟩
        · cases computed
      have negated : (Eval.ofFault (Operation.negation (reached.store.object id))).Proceeds slips
          reached fun result after => YieldFits slips reached.store result ∧ after = reached :=
        Eval.proceeds_ofFault fun result computed => ⟨fits result computed, rfl⟩
      apply negated.bind
      rintro result _ _ ⟨known, rfl⟩
      apply Eval.Proceeds.act (proceeds_yieldValue soundReached known)
      intro slot after _ values
      exact proceeds_claim span values

/-! ### Branches and loops -/

theorem proceeds_bodyValue (sound : before.store.Sound) (tidy : body.Tidy) (block : Bool) :
    (bodyValue self body block context).Proceeds slips before fun id after =>
      after.store.IsValue id := by
  apply (reliable.visit sound tidy).bind
  intro id reached done value
  cases block with
  | true => exact Eval.proceeds_pure (sound.deeds done).null
  | false => exact Eval.proceeds_pure value

theorem proceeds_branchValue {otherwise : Option (Script × Bool)}
    {cases : List (Script × Script × Bool)} :
    ∀ {before : Machine}, before.store.Sound → Tree.TidyCases (cases, otherwise) →
      (branchValue self context otherwise cases).Proceeds slips before fun id after =>
        after.store.IsValue id := by
  induction cases with
  | nil =>
      intro before sound tidy
      cases otherwise with
      | none => exact Eval.proceeds_pure sound.null
      | some final => exact proceeds_bodyValue reliable sound (tidy.2 final rfl) final.2
  | cons head rest ih =>
      intro before sound tidy
      obtain ⟨condition, body, block⟩ := head
      obtain ⟨⟨tidyCondition, tidyBody⟩, tidyRest⟩ := List.forall_mem_cons.mp tidy.1
      apply (reliable.visit sound tidyCondition).bind
      intro test reached done _
      apply Eval.Proceeds.after (ends_object test reached)
      cases Operation.isTrue (reached.store.object test) with
      | true => exact proceeds_bodyValue reliable (sound.deeds done) tidyBody block
      | false => exact ih (sound.deeds done) ⟨tidyRest, tidy.2⟩

theorem proceeds_round (sound : before.store.Sound) (tidy : body.Tidy) :
    (round self body context).Proceeds slips before fun ended after =>
      ∀ id, ended = .value id → after.store.IsValue id := by
  apply (reliable.visit sound tidy).observe
  intro outcome reached _ value
  cases outcome with
  | ok id =>
      refine Eval.proceeds_pure fun other same => ?_
      cases same
      exact value
  | error interrupt =>
      cases interrupt with
      | failed fault => exact Eval.proceeds_throw value
      | returned id => exact Eval.proceeds_throw value
      | skipped => exact Eval.proceeds_pure fun _ same => by cases same
      | left => exact Eval.proceeds_pure fun _ same => by cases same

end

theorem proceeds_loopValue (sound : before.store.Sound) (span : Span) (block : Bool)
    {values : List ObjectId} (known : ∀ id ∈ values, before.store.IsValue id) :
    (loopValue span block context values).Proceeds slips before fun id after =>
      after.store.IsValue id := by
  cases block with
  | true => exact Eval.proceeds_pure sound.null
  | false => exact proceeds_newList known span

theorem forall_mem_reverse {store : Store} {values : List ObjectId}
    (known : ∀ id ∈ values, store.IsValue id) : ∀ id ∈ values.reverse, store.IsValue id :=
  fun id among => known id (List.mem_reverse.mp among)

/-- A loop over the elements of a collection comes, from an index and a machine on, to an element
that holds a text. -/
inductive ReadsText (self : Evaluator) (name : String) (elements : Collection) (body : Script)
    (context : Context) : Nat → Machine → Prop where
  | here {index : Nat} {machine : Machine} {id : ObjectId}
      (found : (elements.next index).Ends machine (some (.object id)) machine)
      (text : machine.store.HoldsText id) : ReadsText self name elements body context index machine
  | later {index : Nat} {machine bound after : Machine} {id : ObjectId} {held : Scalar}
      {ended : Round} (found : (elements.next index).Ends machine (some (.object id)) machine)
      (known : machine.store.scalar? id = some held)
      (binds : (makeBare (.number held) >>= assign context name).Ends machine () bound)
      (turns : (round self body context).Ends bound (.ok ended) after) (goesOn : ended ≠ .left)
      (reads : ReadsText self name elements body context (index + 1) after) :
      ReadsText self name elements body context index machine

def Follows (self real : Evaluator) : Prop :=
  ∀ {script context before outcome after}, (self script context).Ends before outcome after →
    (real script context).Ends before outcome after

theorem Follows.round (follows : self.Follows real) {after : Machine}
    {ended : Except Interrupt Round} (turned : (round self body context).Ends before ended after) :
    (Evaluator.round real body context).Ends before ended after := by
  obtain ⟨outcome, middle, visited, goesOn⟩ := Eval.ends_observe_iff.mp turned
  exact Eval.ends_observe_iff.mpr ⟨outcome, middle, follows visited, goesOn⟩

/-- What lets something slip when a tree is evaluated: a loop that counts from a text, or one that
reads an element which holds a text. -/
def LetsSlip (self : Evaluator) : Script → Context → Machine → Prop
  | .count _ _ first _ _ _ _, context, before =>
      ∃ id after, (self first context).Ends before (.ok id) after ∧ after.store.HoldsText id
  | .each _ name collection body _, context, before =>
      ∃ id after elements, (self collection context).Ends before (.ok id) after ∧
        (collectionOf id).Ends after elements after ∧
          ReadsText self name elements body context 0 after
  | _, _, _ => False

/-- A loop that goes on from here counts from no text and reads none, unless something may slip, and
the condition that it tests is tidy. -/
def Head.Careful (slips : Prop) (real : Evaluator) (body : Script) (context : Context) :
    Head → Machine → Prop
  | .counting _ _ _ _ counter, _ => counter.isText = true → slips
  | .reading name elements index, machine =>
      ReadsText real name elements body context index machine → slips
  | .testing condition, _ => condition.Tidy

variable (reliable : self.Reliable slips)

include reliable

theorem proceeds_ask {head : Head} (sound : before.store.Sound)
    (careful : head.Careful slips real body context before) :
    (head.ask self context).Proceeds slips before fun asked ready => ∀ next, asked = some next →
      ∀ ended after, (round real body context).Ends ready (.ok ended) after → ended ≠ .left →
        next.Careful slips real body context after := by
  cases head with
  | counting name limit step rising counter =>
      apply Eval.after_scalar
      intro bound _
      apply Eval.after_settle
      intro goesOn _
      cases goesOn with
      | false => exact Eval.proceeds_pure fun _ none => by cases none
      | true =>
          have sane : (Payload.number counter).Sane slips before.store :=
            fun isText => .inl (careful isText)
          apply Eval.Proceeds.act (proceeds_makeBare sane)
          intro fresh made _ _
          apply Eval.Proceeds.act (proceeds_assign context name fresh)
          intro _ assigned _ _
          apply Eval.after_scalar
          intro stride _
          apply Eval.after_settle
          intro next counted
          apply Eval.proceeds_pure
          intro _ same
          cases same
          intro _ _ _ _ isText
          cases number : counter.isText with
          | true => exact careful number
          | false =>
              rw [Scalar.numerical_add number next counted] at isText
              cases isText
  | reading name elements index =>
      apply Eval.Proceeds.still (within_next elements index)
      intro element found
      cases element with
      | none => exact Eval.proceeds_pure fun _ none => by cases none
      | some slot =>
          apply Eval.after_objectAt
          intro id same
          subst same
          apply Eval.after_scalar
          intro held holds
          have sane : (Payload.number held).Sane slips before.store :=
            fun isText => .inl (careful (.here found ⟨held, holds, isText⟩))
          apply Eval.Proceeds.act (proceeds_makeBare sane).ended
          rintro fresh made _ ⟨_, makes⟩
          apply Eval.Proceeds.act (proceeds_assign context name fresh).ended
          rintro _ assigned _ ⟨_, assigns⟩
          apply Eval.proceeds_pure
          intro _ same
          cases same
          -- The rounds so far are those of the real loop, so the next one is too.
          intro ended after turned goesOn reads
          exact careful (.later found holds (makes.bind assigns) turned goesOn reads)
  | testing condition =>
      apply (reliable.visit sound careful).bind
      intro test middle _ _
      apply Eval.Proceeds.after (ends_object test middle)
      cases Operation.isTrue (middle.store.object test) with
      | false => exact Eval.proceeds_pure fun _ none => by cases none
      | true =>
          exact Eval.proceeds_pure fun _ same => by
            cases same
            exact fun _ _ _ _ => careful

theorem proceeds_rounds (follows : self.Follows real) (tidy : body.Tidy) (count : Nat) :
    ∀ {head : Head} {values : List ObjectId} {before : Machine}, before.store.Sound →
      head.Careful slips real body context before → (∀ id ∈ values, before.store.IsValue id) →
        (head.rounds self body context count values).Proceeds slips before
          fun values after => ∀ id ∈ values, after.store.IsValue id := by
  induction count with
  | zero =>
      intro head values before sound careful known
      cases head <;> exact Eval.proceeds_crash _
  | succ count ih =>
      intro head values before sound careful known
      rw [Head.rounds_succ]
      apply (proceeds_ask reliable sound careful).bind
      intro asked ready one carefulNext
      have knownReady : ∀ id ∈ values, ready.store.IsValue id :=
        fun id among => (known id among).deeds one
      cases asked with
      | none => exact Eval.proceeds_pure (forall_mem_reverse knownReady)
      | some next =>
          apply (proceeds_round reliable (sound.deeds one) tidy).ended.bind
          rintro ended reached two ⟨value, turned⟩
          have soundReached := (sound.deeds one).deeds two
          have still : ∀ id ∈ values, reached.store.IsValue id :=
            fun id among => (knownReady id among).deeds two
          have goesOn := carefulNext next rfl ended reached (follows.round turned)
          cases ended with
          | value id =>
              exact ih soundReached (goesOn (by intro same; cases same))
                (List.forall_mem_cons.mpr ⟨value id rfl, still⟩)
          | skipped => exact ih soundReached (goesOn (by intro same; cases same)) still
          | left => exact Eval.proceeds_pure (forall_mem_reverse still)

theorem behaves_stepValue (sound : before.store.Sound) {step : Option Script}
    (tidy : ∀ script ∈ step, script.Tidy) : (stepValue self step context).Behaves slips before := by
  cases step with
  | none =>
      have sane : (Payload.number (.int 1)).Sane slips before.store := Store.sane_number rfl
      exact (Eval.Proceeds.lift (proceeds_makeBare sane)).behaves
  | some script => exact (reliable.visit sound (tidy script rfl)).behaves

section

variable (follows : self.Follows real) (header : Header) (sound : before.store.Sound) {span : Span}
  {block : Bool} (tidy : (header.script span body block).Tidy)
  (careful : real.LetsSlip (header.script span body block) context before → slips)

include follows sound tidy careful

theorem proceeds_opening :
    (header.opening self context).Proceeds slips before fun head ready =>
      head.Careful slips real body context ready := by
  have inside := tidy.inside
  cases header with
  | count name first limit step =>
      obtain ⟨tidyFirst, rest⟩ := List.forall_mem_cons.mp inside
      obtain ⟨tidyLimit, rest⟩ := List.forall_mem_cons.mp rest
      obtain ⟨_, tidyStep⟩ := List.forall_mem_cons.mp rest
      apply (reliable.visit sound tidyFirst).ended.bind
      rintro start begun one ⟨startValue, ended⟩
      apply (reliable.visit (sound.deeds one) tidyLimit).bind
      intro stop bounded two _
      apply (behaves_stepValue reliable ((sound.deeds one).deeds two) fun tree among =>
        tidyStep tree (Option.mem_toList.mpr among)).bind
      intro stride strode three _
      apply Eval.after_scalar
      intro counter held
      apply Eval.after_scalar
      intro width _
      apply Eval.after_settle
      intro rising _
      -- The counter is read only now, but no deed made a text of it since it was evaluated.
      refine Eval.proceeds_pure fun isText => careful ⟨start, begun, follows ended, ?_⟩
      exact Store.holdsText_of_deeds startValue (two.trans three) ⟨counter, held, isText⟩
  | each name collection =>
      obtain ⟨tidyCollection, _⟩ := List.forall_mem_cons.mp inside
      apply Eval.Proceeds.observe (reliable.visit sound tidyCollection).ended
      intro outcome reached _ value
      cases outcome with
      | ok id =>
          apply Eval.Proceeds.still (within_collectionOf id)
          intro elements found
          exact Eval.proceeds_pure fun reads =>
            careful ⟨id, reached, elements, follows value.2, found, reads⟩
      | error interrupt =>
          cases interrupt with
          | failed fault => exact Eval.proceeds_fail fault
          | returned id => exact Eval.proceeds_crash _
          | skipped => exact Eval.proceeds_crash _
          | left => exact Eval.proceeds_crash _
  | test condition => exact Eval.proceeds_pure (List.forall_mem_cons.mp inside).1

theorem proceeds_loop (limits : Limits) (execute : Executor) :
    (step limits self execute (header.script span body block) context).Proceeds slips before
      fun id after => after.store.IsValue id := by
  have tidyBody : body.Tidy := by
    cases header <;> exact tidy.inside body (by simp [Header.script, Tree.parts])
  rw [step_script]
  apply (proceeds_opening reliable follows header sound tidy careful).bind
  intro head ready one carefulReady
  apply (proceeds_rounds reliable follows tidyBody limits.rounds (sound.deeds one) carefulReady
    (List.forall_mem_nil _)).bind
  intro values reached two known
  exact proceeds_loopValue ((sound.deeds one).deeds two) span block known

end

/-! ### Functions and calls -/

theorem behaves_defaultSlots :
    ∀ {before : Machine}, before.store.Sound → Tree.TidyNamed optional →
      (defaultSlots self context optional).Behaves slips before := by
  induction optional with
  | nil =>
      intro before sound tidy
      exact Eval.proceeds_pure trivial
  | cons parameter rest ih =>
      intro before sound tidy
      obtain ⟨tidyHere, tidyRest⟩ := List.forall_mem_cons.mp tidy
      have goesOn : ∀ (slot : Slot) {reached : Machine}, Deeds slips before.store reached.store →
          (do return slot :: (← defaultSlots self context rest) : Eval (List Slot)).Behaves slips
            reached := by
        intro slot reached done
        apply (ih (sound.deeds done) tidyRest).bind
        intro slots after _ _
        exact Eval.proceeds_pure trivial
      apply Eval.Proceeds.observe (reliable.visit sound tidyHere)
      intro outcome reached done _
      cases outcome with
      | ok id => exact goesOn _ done
      | error interrupt =>
          cases interrupt with
          | failed fault => exact Eval.proceeds_fail fault
          | returned id => exact goesOn _ done
          | skipped => exact goesOn _ done
          | left => exact goesOn _ done

theorem proceeds_functionValue (sound : before.store.Sound) (span : Span) (name : Option String)
    (parameters : List String) (yields : Bool) (tidyOptional : Tree.TidyNamed optional)
    (tidyBody : body.Tidy) :
    (functionValue self span name parameters optional body yields context).Proceeds slips before
      fun id after => after.store.IsValue id := by
  apply Eval.Proceeds.after (ends_get before)
  dsimp only
  split
  · exact behaves_failAt _ span
  · apply (behaves_defaultSlots reliable sound tidyOptional).bind
    intro slots reached _ _
    apply Eval.Proceeds.act (proceeds_addDefaults slots.toArray)
    intro defaults added _ _
    refine Eval.Proceeds.bind (proceeds_value (.function _) ?tidy rfl span) ?_
    case tidy => exact tidyBody
    intro id after _ value
    have named : (nameValue name id context).Behaves slips after := by
      cases name with
      | none => exact proceeds_pure trivial
      | some name => exact proceeds_assign context name id
    apply Eval.Proceeds.act named
    intro _ last done _
    exact Eval.proceeds_pure (value.deeds done)

theorem behaves_givenValues (known : List String) :
    ∀ {before : Machine}, before.store.Sound → Tree.TidyNamed optional →
      (givenValues self context known optional).Behaves slips before := by
  induction optional with
  | nil =>
      intro before sound tidy
      exact Eval.proceeds_pure trivial
  | cons parameter rest ih =>
      intro before sound tidy
      obtain ⟨tidyHere, tidyRest⟩ := List.forall_mem_cons.mp tidy
      unfold givenValues
      split
      · apply Eval.Proceeds.observe (reliable.visit sound tidyHere)
        intro outcome reached done _
        apply (ih (sound.deeds done) tidyRest).bind
        intro given after _ _
        exact Eval.proceeds_pure trivial
      · exact Eval.proceeds_crash _

theorem proceeds_callValue {execute : Executor} (executes : execute.Reliable slips)
    (sound : before.store.Sound) (span : Span) {callee : Script} {arguments : List Script}
    (tidyCallee : callee.Tidy) (tidyArguments : ∀ argument ∈ arguments, argument.Tidy)
    (tidyOptional : Tree.TidyNamed optional) :
    (callValue self execute span callee arguments optional context).Proceeds slips before
      fun id after => after.store.IsValue id := by
  apply (reliable.visit sound tidyCallee).bind
  intro id visited one _
  apply Eval.Proceeds.act (proceeds_copy id)
  intro called copied two _
  apply Eval.Proceeds.act (proceeds_setPlace called span)
  intro _ placed three _
  have soundPlaced := ((sound.deeds one).deeds two).deeds three
  apply (proceeds_values reliable soundPlaced tidyArguments).bind
  intro values evaluated four areValues
  have soundEvaluated := soundPlaced.deeds four
  apply Eval.Proceeds.after (ends_object called evaluated)
  apply Eval.Proceeds.still (within_optionalNames _)
  intro known _
  apply (behaves_givenValues reliable known soundEvaluated tidyOptional).bind
  intro given reached five _
  have soundReached := soundEvaluated.deeds five
  apply Eval.Proceeds.after (ends_object called reached)
  -- The arguments were values when they were evaluated, and have stayed so.
  have executed := executes (reached.store.object called) values given reached soundReached
    (soundReached.bodies called) fun value among => (areValues value among).deeds five
  apply executed.bind
  intro result after _ _
  apply Eval.after_objectAt
  intro value _
  exact .lift (proceeds_retrieve span value)

theorem proceeds_returnValue (sound : before.store.Sound) {value : Option Script}
    (tidy : ∀ script ∈ value, script.Tidy) {post : ObjectId → Machine → Prop} :
    (returnValue self value context).Proceeds slips before post := by
  cases value with
  | none => exact Eval.proceeds_throw sound.null
  | some script =>
      apply (reliable.visit sound (tidy script rfl)).bind
      intro id reached _ value
      exact Eval.proceeds_throw value

/-! ### All trees -/

theorem proceeds_step {execute : Executor} (executes : execute.Reliable slips)
    (follows : self.Follows real) (limits : Limits) (sound : before.store.Sound) {script : Script}
    (tidy : script.Tidy) (careful : real.LetsSlip script context before → slips) :
    (step limits self execute script context).Proceeds slips before fun id after =>
      after.store.IsValue id := by
  have inside := tidy.inside
  cases script with
  | number span literal =>
      have sane : (Payload.number literal.scalar).Sane slips before.store :=
        Store.sane_number (by cases literal <;> rfl)
      exact proceeds_value (.number literal.scalar) sane rfl span
  | string span text => exact proceeds_value (.text text) trivial rfl span
  | list span items => exact proceeds_listValue reliable sound span inside
  | dict span entries =>
      exact proceeds_dictValue reliable sound span tidy.here (List.forall_mem_map.mp inside)
  | access span name owner => exact proceeds_accessValue span name owner
  | assign span name value =>
      exact proceeds_assignValue reliable sound name (List.forall_mem_singleton.mp inside)
  | binary span op left right =>
      obtain ⟨tidyLeft, tidyRight⟩ := List.forall_mem_cons.mp inside
      exact proceeds_binaryValue reliable sound span op tidyLeft
        (List.forall_mem_singleton.mp tidyRight)
  | unary span op operand =>
      exact proceeds_unaryValue reliable sound span op (List.forall_mem_singleton.mp inside)
  | branch span cases otherwise => exact proceeds_branchValue reliable sound tidy.cases
  | count span name first limit step body block =>
      exact proceeds_loop reliable follows (.count name first limit step) sound tidy careful _ _
  | each span name collection body block =>
      exact proceeds_loop reliable follows (.each name collection) sound tidy careful _ _
  | loop span condition body block =>
      exact proceeds_loop reliable follows (.test condition) sound tidy careful _ _
  | function span name parameters optional body yields =>
      obtain ⟨tidyBody, tidyOptional⟩ := List.forall_mem_cons.mp inside
      exact proceeds_functionValue reliable sound span name parameters yields
        (List.forall_mem_map.mp tidyOptional) tidyBody
  | call span callee arguments optional =>
      obtain ⟨tidyCallee, rest⟩ := List.forall_mem_cons.mp inside
      obtain ⟨tidyArguments, tidyOptional⟩ := List.forall_mem_append.mp rest
      exact proceeds_callValue reliable executes sound span tidyCallee tidyArguments
        (List.forall_mem_map.mp tidyOptional)
  | giveBack span value =>
      exact proceeds_returnValue reliable sound fun tree among =>
        inside tree (Option.mem_toList.mpr among)
  | skip span => exact Eval.proceeds_throw trivial
  | leave span => exact Eval.proceeds_throw trivial

end Evaluator
end Lingo
