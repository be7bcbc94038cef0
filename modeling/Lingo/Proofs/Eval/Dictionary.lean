/-
What becomes of dictionaries.

The entries of a dictionary are evaluated one after the other.  However the value of an entry
ends, its key is made next and the dictionary goes on: faults and other interruptions leave no
trace but an entry that holds nothing.
-/

import Lingo.Proofs.Eval.Course

namespace Lingo

def Machine.withObject (machine : Machine) (object : Object) : Machine :=
  { machine with store := (machine.store.addObject object).2 }

def Machine.withEntries (machine : Machine) (entries : Array (ObjectId × Slot)) : Machine :=
  { machine with store := (machine.store.addDict entries).2 }

namespace Evaluator

open Activity

variable {self : Evaluator} {context : Context} {before after : Machine}

def claimed (payload : Payload) (span : Span) (context : Context) : Object :=
  { payload, start := some span.start, stop := some span.stop, context := some context }

/-- Entries are evaluated in turn.  Each value ends in some way, and then its key is made. -/
inductive Fills (self : Evaluator) (context : Context) :
    List ((Span × String) × Script) → Machine → List (ObjectId × Except Interrupt ObjectId) →
      Machine → Prop where
  | nil (machine : Machine) : Fills self context [] machine [] machine
  | cons {key : Span × String} {value : Script} {rest : List ((Span × String) × Script)}
      {before middle after : Machine} {outcome : Except Interrupt ObjectId}
      {filled : List (ObjectId × Except Interrupt ObjectId)}
      (ends : (self value context).Ends before outcome middle)
      (others : Fills self context rest
        (middle.withObject (claimed (.text key.2) key.1 context)) filled after) :
      Fills self context ((key, value) :: rest) before
        ((⟨middle.store.objects.size⟩, outcome) :: filled) after

def held (pair : ObjectId × Except Interrupt ObjectId) : ObjectId × Slot :=
  (pair.1, settled pair.2)

theorem ends_entryValue_iff {key : Span × String} {value : Script}
    {result : Except Interrupt (ObjectId × Slot)} :
    (entryValue self context (key, value)).Ends before result after ↔
      ∃ outcome middle, (self value context).Ends before outcome middle ∧
        result = .ok (held (⟨middle.store.objects.size⟩, outcome)) ∧
          after = middle.withObject (claimed (.text key.2) key.1 context) := by
  constructor
  · intro ends
    obtain ⟨outcome, middle, ended, made⟩ := Eval.ends_observe_iff.mp ends
    cases made
    exact ⟨outcome, middle, ended, rfl, rfl⟩
  · rintro ⟨outcome, middle, starts, rfl, rfl⟩
    exact Eval.ends_observe_iff.mpr ⟨outcome, middle, starts, rfl⟩

theorem ends_entries_iff {entries : List ((Span × String) × Script)}
    {result : Except Interrupt (List (ObjectId × Slot))} :
    (entries.mapM (entryValue self context)).Ends before result after ↔
      ∃ filled, Fills self context entries before filled after ∧
        result = .ok (filled.map held) := by
  induction entries generalizing before result after with
  | nil =>
      rw [List.mapM_nil, Eval.ends_pure_iff]
      constructor
      · rintro ⟨rfl, rfl⟩
        exact ⟨[], .nil _, rfl⟩
      · rintro ⟨filled, fills, rfl⟩
        cases fills
        exact ⟨rfl, rfl⟩
  | cons entry rest ih =>
      obtain ⟨key, value⟩ := entry
      rw [List.mapM_cons, Eval.ends_bind_iff]
      constructor
      · rintro ⟨_, _, first, others⟩
        obtain ⟨outcome, middle, ends, rfl, rfl⟩ := ends_entryValue_iff.mp first
        obtain ⟨_, last, tail, built⟩ := Eval.ends_bind_iff.mp others
        obtain ⟨filled, fills, rfl⟩ := ih.mp tail
        obtain ⟨rfl, rfl⟩ := Eval.ends_pure_iff.mp built
        exact ⟨_, .cons ends fills, rfl⟩
      · rintro ⟨_, fills, rfl⟩
        cases fills with
        | cons ends others =>
            have tail := ih.mpr ⟨_, others, rfl⟩
            refine ⟨_, _, ends_entryValue_iff.mpr ⟨_, _, ends, rfl, rfl⟩, ?_⟩
            exact Eval.ends_bind_iff.mpr ⟨_, _, tail, Eval.ends_pure_iff.mpr ⟨rfl, rfl⟩⟩

def withDictionary (machine : Machine) (filled : List (ObjectId × Except Interrupt ObjectId))
    (span : Span) (context : Context) : Machine :=
  (machine.withEntries (filled.map held).toArray).withObject
    (claimed (.dict ⟨machine.store.dicts.size⟩) span context)

theorem ends_dictValue_iff {span : Span} {entries : List ((Span × String) × Script)}
    {result : Except Interrupt ObjectId} :
    (dictValue self span entries context).Ends before result after ↔
      ∃ filled middle, Fills self context entries before filled middle ∧
        result = .ok ⟨middle.store.objects.size⟩ ∧
          after = withDictionary middle filled span context := by
  unfold dictValue
  rw [Eval.ends_bind_iff]
  constructor
  · rintro ⟨_, middle, first, made⟩
    obtain ⟨filled, fills, rfl⟩ := ends_entries_iff.mp first
    cases made
    exact ⟨filled, middle, fills, rfl, rfl⟩
  · rintro ⟨filled, middle, fills, rfl, rfl⟩
    exact ⟨_, middle, ends_entries_iff.mpr ⟨filled, fills, rfl⟩, rfl⟩

theorem entries_withDictionary (machine : Machine)
    (filled : List (ObjectId × Except Interrupt ObjectId)) (span : Span) (context : Context) :
    (withDictionary machine filled span context).store.entries ⟨machine.store.dicts.size⟩ =
      (filled.map held).toArray :=
  machine.store.dicts.read_push_new _

theorem payload_withDictionary (machine : Machine)
    (filled : List (ObjectId × Except Interrupt ObjectId)) (span : Span) (context : Context) :
    ((withDictionary machine filled span context).store.object
      ⟨machine.store.objects.size⟩).payload = .dict ⟨machine.store.dicts.size⟩ := by
  have made := machine.store.objects.read_push_new
    (claimed (.dict ⟨machine.store.dicts.size⟩) span context)
  exact congrArg Object.payload made

/-- Only an interrupted value leaves nothing under its key. -/
theorem held_all_objects_iff (filled : List (ObjectId × Except Interrupt ObjectId)) :
    (∀ entry ∈ filled.map held, ∃ value, entry.2 = .object value) ↔
      ∀ pair ∈ filled, ∃ value, pair.2 = .ok value := by
  have each : ∀ pair : ObjectId × Except Interrupt ObjectId,
      (∃ value, (held pair).2 = .object value) ↔ ∃ value, pair.2 = .ok value := by
    rintro ⟨key, outcome⟩
    cases outcome with
    | ok value => exact ⟨fun _ => ⟨value, rfl⟩, fun _ => ⟨value, rfl⟩⟩
    | error interrupt => exact ⟨nofun, nofun⟩
  rw [List.forall_mem_map]
  exact forall₂_congr fun pair _ => each pair

/-- A dictionary outlives the interruptions of its values: it is never interrupted itself, but
ends if all its values do, in whatever way.  The value is then a new dictionary with an entry for
each key, and every key has a real value just if no value was interrupted. -/
theorem dictionary_outlives_interruptions (limits : Limits) (depth : Nat) (span : Span)
    (entries : List ((Span × String) × Script)) (context : Context) (before : Machine)
    (result : Except Interrupt ObjectId) (after : Machine) :
    (atDepth limits (depth + 1) (.dict span entries) context).Ends before result after ↔
      ∃ filled middle, Fills (atDepth limits depth) context entries before filled middle ∧
        result = .ok ⟨middle.store.objects.size⟩ ∧
        after = withDictionary middle filled span context ∧
        (after.store.object ⟨middle.store.objects.size⟩).payload =
          .dict ⟨middle.store.dicts.size⟩ ∧
        after.store.entries ⟨middle.store.dicts.size⟩ = (filled.map held).toArray ∧
        ((∀ entry ∈ after.store.entries ⟨middle.store.dicts.size⟩,
            ∃ value, entry.2 = .object value) ↔
          ∀ pair ∈ filled, ∃ value, pair.2 = .ok value) := by
  constructor
  · intro ends
    obtain ⟨filled, middle, fills, rfl, rfl⟩ := ends_dictValue_iff.mp ends
    refine ⟨filled, middle, fills, rfl, rfl, payload_withDictionary .., entries_withDictionary ..,
      ?_⟩
    rw [entries_withDictionary]
    simp only [List.mem_toArray]
    exact held_all_objects_iff filled
  · rintro ⟨filled, middle, fills, result, after, _⟩
    exact ends_dictValue_iff.mpr ⟨filled, middle, fills, result, after⟩

/-- A value that fails with a division by zero, and a dictionary that holds it. -/
theorem dictionary_loses_fault :
    let value : Script := .binary default .div (.number default (.int 1)) (.number default (.int 0))
    let context : Context := [{ name := "<program>", entered := none, table := some ⟨0⟩ }]
    let before : Machine := { store := { tables := ⟨#[{}]⟩ }, globals := ⟨0⟩ }
    (∃ fault middle, fault.cause.details = "Division by zero" ∧
      (atDepth ⟨3, 1⟩ 2 value context).Ends before (.error (.failed fault)) middle) ∧
      ∃ id after key,
        (atDepth ⟨3, 1⟩ 3 (.dict default [((default, "a"), value)]) context).Ends before (.ok id)
          after ∧
        (after.store.object id).payload = .dict ⟨0⟩ ∧
          after.store.entries ⟨0⟩ = #[(key, .nothing)] :=
  ⟨⟨_, _, rfl, rfl⟩, _, _, _, rfl, rfl, rfl⟩

end Evaluator

end Lingo
