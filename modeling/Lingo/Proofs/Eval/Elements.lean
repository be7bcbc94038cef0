/-
The elements of lists.

Every element of a list is a value or a bare scalar.  A value can be taken out, copied and placed;
a bare scalar cannot, and whatever tries to ends abnormally.  As long as nothing has slipped there
are no bare scalars in lists and no texts in numbers.
-/

import Lingo.Proofs.Eval.Reached

namespace Lingo

open Activity

variable {before : Machine}

theorem Activity.ends_copy {id : ObjectId} (value : before.store.IsValue id) :
    (copy id).Ends before ⟨before.store.objects.size⟩
      { before with store := (before.store.addObject (before.store.object id)).2 } := by
  apply Ends.bind (ends_object id before)
  unfold Store.IsValue at value
  cases known : (before.store.object id).payload with
  | plain =>
      rw [known] at value
      cases value
  | bodiless name =>
      rw [known] at value
      cases value
  | _ => exact ends_addObject _ before

theorem Evaluator.ends_retrieve {id : ObjectId} (value : before.store.IsValue id) (span : Span)
    (context : Context) :
    ∃ copied after, (retrieve span context id).Ends before copied after ∧
      after.store.object copied =
        { before.store.object id with
          start := some span.start, stop := some span.stop, context := some context } := by
  refine ⟨_, _, Ends.bind (ends_copy value) (Ends.bind rfl (Ends.bind rfl rfl)), ?_⟩
  have inside : before.store.objects.size <
      (before.store.addObject (before.store.object id)).2.objects.size := by
    rw [Store.size_addObject]
    exact Nat.lt_succ_self _
  dsimp only
  rw [Store.object_modifyObject, Store.object_modifyObject, Store.object_addObject]
  · exact inside
  · rw [Store.size_modifyObject]
    exact inside

/-- What is in a slot can be taken as a value: it can be copied, placed and put in a context. -/
def Slot.Usable (machine : Machine) (slot : Slot) : Prop :=
  ∃ id, (objectAt slot).Ends machine id machine ∧ ∀ span context, ∃ copied after,
    (Evaluator.retrieve span context id).Ends machine copied after ∧
      after.store.object copied =
        { machine.store.object id with
          start := some span.start, stop := some span.stop, context := some context }

theorem Slot.usable_object {machine : Machine} {id : ObjectId} (value : machine.store.IsValue id) :
    (Slot.object id).Usable machine :=
  ⟨id, ends_pure id machine, Evaluator.ends_retrieve value⟩

theorem Slot.not_usable_bare (machine : Machine) (held : Scalar) :
    ¬(Slot.bare held).Usable machine := by
  rintro ⟨id, taken, _⟩
  cases taken

/-- In every machine that is reached, each element of a list is a value, which can be used, or a
bare scalar, which cannot.  Before anything slips, each element is a value and no number holds a
text. -/
theorem elements_are_values_until_slip (limits : Limits) :
    (∀ machine, Machine.Reached limits (fun _ => False) machine →
      ∀ list, ∀ slot ∈ machine.store.items list,
        (∃ id, slot = .object id ∧ machine.store.IsValue id ∧ slot.Usable machine) ∨
          ∃ held, slot = .bare held ∧ ¬slot.Usable machine) ∧
      ∀ machine, Machine.Reached limits (Moment.LetsSlip limits) machine →
        (∀ list, ∀ slot ∈ machine.store.items list,
          ∃ id, slot = .object id ∧ machine.store.IsValue id ∧ slot.Usable machine) ∧
        ∀ id held, (machine.store.object id).payload = .number held → held.isText = false := by
  constructor
  · intro machine reached list slot among
    rcases reached.sound.elements list slot among with ⟨id, rfl, value⟩ | ⟨held, rfl⟩
    · exact .inl ⟨id, rfl, value, Slot.usable_object value⟩
    · exact .inr ⟨held, rfl, Slot.not_usable_bare machine held⟩
  · intro machine reached
    have proper := reached.proper
    constructor
    · intro list slot among
      obtain ⟨id, rfl, value⟩ := proper.elements list slot among
      exact ⟨id, rfl, value, Slot.usable_object value⟩
    · exact proper.numbers

/-! ### Two sessions -/

def Halts.atLoops : Halts := fun moment =>
  match moment.job with
  | .visit (.count _ _ _ _ _ _ _) _ => some .tooDeep
  | .visit (.each _ _ _ _ _) _ => some .tooDeep
  | .visit _ _ => none
  | .execution _ _ _ => some .tooDeep

theorem Halts.atLoops_of_letsSlip {limits : Limits} {moment : Moment}
    (slipping : moment.LetsSlip limits) : Halts.atLoops moment ≠ none := by
  intro goesOn
  unfold Moment.LetsSlip at slipping
  unfold Halts.atLoops at goesOn
  split at goesOn
  · cases goesOn
  · cases goesOn
  next script context notCount notEach same =>
    rw [same] at slipping
    obtain ⟨depth, _, loops⟩ := slipping
    cases script with
    | count span name first limit step body block => exact notCount _ _ _ _ _ _ _ rfl
    | each span name collection body block => exact notEach _ _ _ _ _ rfl
    | _ => exact loops
  · cases goesOn

/-- Nothing slips while a list is written. -/
theorem elements_are_values_until_slip_list :
    let machine := Machine.afterText "[1, [2]]"
    Machine.Reached .standard (Moment.LetsSlip .standard) machine ∧
      ((machine.store.items ⟨1⟩).size = 2 ∧ ∀ slot ∈ machine.store.items ⟨1⟩,
        ∃ id, slot = .object id ∧ machine.store.IsValue id ∧ slot.Usable machine) := by
  have ended : ((Machine.course .standard { name := "<stdin>", text := "[1, [2]]" } ""
      Halts.atLoops).result (.initial {} [])).1.isOk = true := by decide +kernel
  have reached : Machine.Reached .standard (Moment.LetsSlip .standard)
      (Machine.afterText "[1, [2]]") := by
    refine .between (.run (.start {} []) _ _ fun moment slipping => ?_)
    cases result : (Machine.course .standard { name := "<stdin>", text := "[1, [2]]" } ""
        Halts.atLoops).result (.initial {} []) with
    | mk outcome after =>
        rw [result] at ended
        cases outcome with
        | error cause => cases ended
        | ok outcome => exact Machine.not_met_of_ended result (Halts.atLoops_of_letsSlip slipping)
  exact ⟨reached, by decide +kernel,
    ((elements_are_values_until_slip .standard).2 _ reached).1 ⟨1⟩⟩

def Slot.isBare : Slot → Bool
  | .bare _ => true
  | _ => false

def Payload.isTextNumber : Payload → Bool
  | .number held => held.isText
  | _ => false

/-- Certain functions put bare scalars into lists; one makes a number that holds a text, and so
do loops. -/
theorem bare_scalars_and_texts_slip :
    (∀ text ∈ ["split_char(\"a,b\", \",\") / 0", "insert([1], 0, \"a\")", "sort([2, 1])"],
      Machine.Reached .standard (fun _ => False) (Machine.afterText text) ∧
        ∃ list, ∃ slot ∈ (Machine.afterText text).store.items list, ∃ held, slot = .bare held) ∧
      ∀ text ∈ ["oct(8)", "for x in [\"a\"]:\nx\nend", "for x = \"a\" to \"b\": x"],
        Machine.Reached .standard (fun _ => False) (Machine.afterText text) ∧
          (Machine.afterText text).store.HasTextNumber := by
  have bare : (["split_char(\"a,b\", \",\") / 0", "insert([1], 0, \"a\")", "sort([2, 1])"].all
      fun text => (List.range 2).any fun list =>
        ((Machine.afterText text).store.items ⟨list⟩).any Slot.isBare) = true := by decide +kernel
  have texts : (["oct(8)", "for x in [\"a\"]:\nx\nend", "for x = \"a\" to \"b\": x"].all fun text =>
      (List.range 60).any fun id =>
        ((Machine.afterText text).store.object ⟨id⟩).payload.isTextNumber) = true := by
    decide +kernel
  constructor
  · intro text among
    refine ⟨Machine.reached_afterText text, ?_⟩
    obtain ⟨list, _, found⟩ := List.any_eq_true.mp (List.all_eq_true.mp bare text among)
    obtain ⟨slot, inside, isBare⟩ := Array.any_eq_true'.mp found
    cases slot with
    | bare held => exact ⟨⟨list⟩, _, inside, held, rfl⟩
    | object id => cases isBare
    | nothing => cases isBare
  · intro text among
    refine ⟨Machine.reached_afterText text, ?_⟩
    obtain ⟨id, _, found⟩ := List.any_eq_true.mp (List.all_eq_true.mp texts text among)
    unfold Payload.isTextNumber at found
    split at found
    next held known => exact ⟨⟨id⟩, held, known, found⟩
    next => cases found

end Lingo
