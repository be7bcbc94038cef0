/-
Dictionaries as maps, and the places of lists.

Whatever reads or changes a dictionary goes by the texts of its keys, and whatever addresses an
element of a list goes by the same places.  Values that share a dictionary or a list see each change
of it, and no others do.
-/

import Lingo.Proofs.Eval.Keys

namespace Lingo

/-! ### Dictionaries -/

namespace Store

variable {text : String}

def valueOf? (store : Store) (dict : DictId) (key : String) : Option Slot :=
  ((store.keyPlace? dict key).bind ((store.entries dict)[·]?)).map Prod.snd

theorem keyPlace?_eq (store : Store) (dict : DictId) (key : String) :
    store.keyPlace? dict key = (store.keys dict).findIdx? fun id => store.text? id == some key := by
  unfold keyPlace? keys
  rw [List.findIdx?_map, ← List.findIdx?_toArray]
  rfl

theorem isSome_valueOf? (store : Store) (dict : DictId) (key : String) :
    (store.valueOf? dict key).isSome = (store.keyPlace? dict key).isSome := by
  unfold valueOf?
  cases found : store.keyPlace? dict key with
  | none => rfl
  | some place =>
      obtain ⟨bound, _⟩ := Array.findIdx?_eq_some_iff_getElem.mp found
      rw [Option.bind_some, Array.getElem?_eq_getElem bound]
      rfl

variable {store : Store} {dict : DictId}

theorem text_of_keyPlace? {place : Nat} (found : store.keyPlace? dict text = some place) :
    ∃ entry, (store.entries dict)[place]? = some entry ∧ store.text? entry.1 = some text := by
  obtain ⟨bound, same, _⟩ := Array.findIdx?_eq_some_iff_getElem.mp found
  exact ⟨_, Array.getElem?_eq_getElem bound, eq_of_beq same⟩

variable (inside : dict.index < store.dicts.size)

include inside

theorem text?_setEntry (text : String) (key : ObjectId) (value : Slot) :
    (store.setEntry dict text key value).text? = store.text? := by
  funext id
  unfold text? object
  rw [(setsKey_setEntry inside text key value).objects]

theorem entries_setEntry_known {place : Nat} (found : store.keyPlace? dict text = some place)
    (key : ObjectId) (value : Slot) :
    (store.setEntry dict text key value).entries dict =
      (store.entries dict).modify place fun entry => (entry.1, value) := by
  unfold setEntry
  rw [found]
  exact entries_modifyEntries inside _

theorem entries_setEntry_new (absent : store.keyPlace? dict text = none) (key : ObjectId)
    (value : Slot) :
    (store.setEntry dict text key value).entries dict = (store.entries dict).push (key, value) := by
  unfold setEntry
  rw [absent]
  exact entries_modifyEntries inside _

theorem keys_setEntry (text : String) (key : ObjectId) (value : Slot) :
    (store.setEntry dict text key value).keys dict =
      store.keys dict ++ (if (store.keyPlace? dict text).isSome then [] else [key]) := by
  unfold keys
  cases found : store.keyPlace? dict text with
  | some place =>
      rw [entries_setEntry_known inside found, map_fst_modify, Option.isSome_some, if_pos rfl,
        List.append_nil]
  | none => simp [entries_setEntry_new inside found]

/-- A key that is set has its value, and every other key the one that it had. -/
theorem valueOf?_setEntry {key : ObjectId} (named : store.text? key = some text) (value : Slot)
    (other : String) :
    (store.setEntry dict text key value).valueOf? dict other =
      if other = text then some value else store.valueOf? dict other := by
  have texts := text?_setEntry inside text key value
  unfold valueOf?
  cases found : store.keyPlace? dict text with
  | some place =>
      have entries := entries_setEntry_known inside found key value
      have places : (store.setEntry dict text key value).keyPlace? dict other =
          store.keyPlace? dict other := by
        rw [keyPlace?_eq, keyPlace?_eq, texts, keys_setEntry inside, found, Option.isSome_some,
          if_pos rfl, List.append_nil]
      rw [places, entries]
      by_cases same : other = text
      · obtain ⟨entry, here, _⟩ := text_of_keyPlace? found
        rw [same, found]
        simp [Array.getElem?_modify, here]
      · rw [if_neg same]
        cases found' : store.keyPlace? dict other with
        | none => rfl
        | some place' =>
            obtain ⟨entry, here, its⟩ := text_of_keyPlace? found
            obtain ⟨entry', here', its'⟩ := text_of_keyPlace? found'
            have apart : place ≠ place' := by
              rintro rfl
              cases here.symm.trans here'
              exact same (Option.some.inj (its'.symm.trans its))
            simp [Array.getElem?_modify, apart]
  | none =>
      have entries := entries_setEntry_new inside found key value
      have places : (store.setEntry dict text key value).keyPlace? dict other =
          (store.keyPlace? dict other).or
            (if text = other then some (store.entries dict).size else none) := by
        unfold keyPlace?
        rw [entries, texts, Array.findIdx?_push, named]
        simp
      rw [places, entries]
      by_cases same : other = text
      · rw [same, found]
        simp
      · rw [if_neg same, if_neg (Ne.symm same), Option.or_none]
        cases found' : store.keyPlace? dict other with
        | none => rfl
        | some place' =>
            obtain ⟨bound, _⟩ := Array.findIdx?_eq_some_iff_getElem.mp found'
            simp [Array.getElem?_push, Nat.ne_of_lt bound]

end Store

namespace Library

open Activity

variable {before : Machine} (call : Invocation) {subject index : ObjectId} {dict : DictId}
  {text : String}

variable (known : (before.store.object subject).payload = .dict dict)
  (named : before.store.text? index = some text)

include known named

theorem ends_get_text :
    (answer call .get [subject, index]).Ends before
      ((before.store.valueOf? dict text).elim (.error (.failed (Operation.fault .missingKey
        call.start call.stop (some call.context)))) .ok) before := by
  apply Eval.Ends.bind (Eval.Ends.lift (ends_object subject before))
  rw [known]
  apply Eval.Ends.bind (ends_text call named _)
  apply Eval.Ends.bind (Eval.Ends.lift (ends_store before))
  unfold Store.valueOf?
  cases (before.store.keyPlace? dict text).bind ((before.store.entries dict)[·]?) <;> rfl

theorem ends_hasKey :
    (answer call .hasKey [subject, index]).Ends before
      (.ok (truth (before.store.valueOf? dict text).isSome)) before := by
  have dictionary : (call.dict (some 0) subject).Ends before (.ok dict) before := by
    apply Eval.Ends.bind (ends_payload subject before)
    rw [known]
    rfl
  rw [Store.isSome_valueOf?]
  exact Eval.Ends.bind dictionary (Eval.Ends.bind (ends_text call named _) rfl)

end Library

open Library in
/-- Dictionaries are maps.  On every machine, setting a key that is a text succeeds: the entry of an
equal key takes the value in its place, or else the key is added at the end, and no other dictionary
changes.  Every value that shares the dictionary then has the value for this key, and for each other
key what it had before, or fails as before.  A key is there just if getting its value succeeds. -/
theorem dictionaries_are_maps (call : Invocation) (before : Machine)
    (subject index value : ObjectId) (dict : DictId) (text : String)
    (inside : dict.index < before.store.dicts.size)
    (known : (before.store.object subject).payload = .dict dict)
    (named : before.store.text? index = some text) :
    ∃ after, (answer call .set [subject, index, value]).Ends before (.ok null) after ∧
      before.store.SetsKey after.store dict text index (.object value) ∧
      after.store.keys dict = before.store.keys dict ++
        (if (before.store.valueOf? dict text).isSome then [] else [index]) ∧
      ∀ caller other key keyText, (before.store.object other).payload = .dict dict →
        before.store.text? key = some keyText →
        (keyText = text →
          (answer caller .get [other, key]).Ends after (.ok (.object value)) after) ∧
        (keyText ≠ text → ∃ outcome, (answer caller .get [other, key]).Ends before outcome before ∧
          (answer caller .get [other, key]).Ends after outcome after) ∧
        ∃ has, (answer caller .hasKey [other, key]).Ends before (.ok (truth has)) before ∧
          (has = true ↔ ∃ slot, (answer caller .get [other, key]).Ends before (.ok slot) before) := by
  have sets := Store.setsKey_setEntry inside text index (.object value)
  let after := before.withStore (before.store.setEntry dict text index (.object value))
  refine ⟨after, ends_set_text call value known named, sets, ?_, ?_⟩
  · rw [Store.isSome_valueOf?]
    exact Store.keys_setEntry inside text index (.object value)
  · intro caller other key keyText shares keyNamed
    have got := ends_get_text caller shares keyNamed
    have gets : (answer caller .get [other, key]).Ends after _ after := ends_get_text caller
      ((congrArg (fun objects => (Heap.read objects other.index).payload) sets.objects).trans shares)
      ((congrFun (Store.text?_setEntry inside text index (.object value)) key).trans keyNamed)
    rw [Store.valueOf?_setEntry inside named] at gets
    refine ⟨?_, ?_, _, ends_hasKey caller shares keyNamed, ?_⟩
    · rintro same
      rw [if_pos same] at gets
      exact gets
    · intro differs
      rw [if_neg differs] at gets
      exact ⟨_, got, gets⟩
    · cases found : before.store.valueOf? dict keyText with
      | none =>
          rw [found] at got
          constructor
          · intro never
            cases never
          · rintro ⟨slot, gets⟩
            cases got.symm.trans gets
      | some slot =>
          rw [found] at got
          exact ⟨fun _ => ⟨slot, got⟩, fun _ => rfl⟩

open Library in
/-- One of two keys is set in a dictionary that two values share. -/
theorem dictionaries_are_maps_shared :
    let before : Machine :=
      { globals := ⟨0⟩
        store :=
          { objects := ⟨#[{ payload := .dict ⟨0⟩ }, { payload := .dict ⟨0⟩ }, { payload := .text "a" },
              { payload := .text "b" }, { payload := .text "a" }]⟩
            dicts := ⟨#[#[(⟨2⟩, .object ⟨2⟩), (⟨3⟩, .object ⟨3⟩)]]⟩ } }
    ∃ after, (answer default .set [⟨0⟩, ⟨4⟩, ⟨1⟩]).Ends before (.ok null) after ∧
      after.store.keys ⟨0⟩ = [⟨2⟩, ⟨3⟩] ∧
      (answer default .get [⟨1⟩, ⟨2⟩]).Ends after (.ok (.object ⟨1⟩)) after ∧
      (answer default .get [⟨1⟩, ⟨3⟩]).Ends after (.ok (.object ⟨3⟩)) after := by
  intro before
  obtain ⟨after, sets, _, keys, laws⟩ :=
    dictionaries_are_maps default before ⟨0⟩ ⟨4⟩ ⟨1⟩ ⟨0⟩ "a" (by decide) rfl rfl
  obtain ⟨outcome, got, gets⟩ := (laws default ⟨1⟩ ⟨3⟩ "b" rfl rfl).2.1 (by decide)
  have held : before.store.valueOf? ⟨0⟩ "a" = some (.object ⟨2⟩) ∧
      before.store.valueOf? ⟨0⟩ "b" = some (.object ⟨3⟩) := by
    rw [Store.valueOf?, Store.valueOf?, Store.keyPlace?_eq, Store.keyPlace?_eq]
    exact ⟨rfl, rfl⟩
  have known := @ends_get_text before default ⟨1⟩ ⟨3⟩ ⟨0⟩ "b" rfl rfl
  rw [held.1] at keys
  rw [held.2] at known
  cases known.symm.trans got
  exact ⟨after, sets, keys, (laws default ⟨1⟩ ⟨2⟩ "a" rfl rfl).1 rfl, gets⟩

/-! ### Lists -/

/-- A place among so many that an index addresses: the index itself, or counted from the end. -/
def Operation.Points (size : Nat) (index : Int) (place : Nat) : Prop :=
  place < size ∧ ((place : Int) = index ∨ (place : Int) = size + index)

theorem Operation.index?_eq_some_iff {size : Nat} {index : Int} {place : Nat} :
    index? size index = some place ↔ Points size index place := by
  unfold index? Points
  grind

theorem Operation.exists_points_iff {size : Nat} {index : Int} :
    (∃ place, Points size index place) ↔ -(size : Int) ≤ index ∧ index < size := by
  unfold Points
  constructor
  · rintro ⟨place, bound, here⟩
    omega
  · intro within
    by_cases front : 0 ≤ index
    · exact ⟨index.toNat, by omega, by omega⟩
    · exact ⟨(size + index).toNat, by omega, by omega⟩

theorem Slot.getElem?_eq_getD {slots : Array Slot} {place : Nat} (bound : place < slots.size) :
    slots[place]? = some (slots.getD place .nothing) := by
  rw [Array.getD_eq_getD_getElem?, Array.getElem?_eq_getElem bound]
  rfl

theorem Operation.binary_div_list (store : Store) {left right : Object} {list : ListId} {i : Int}
    (known : left.payload = .list list) (numbered : right.payload = .number (.int i)) :
    binary store .div left right = .ok ((index? (store.items list).size i).elim
      (.error (fault .elementOutOfBounds right.start right.stop left.context))
      fun place => .ok (.existing ((store.items list).getD place .nothing))) := by
  unfold binary
  rw [known, numbered]
  dsimp only [place?]
  cases found : index? (store.items list).size i with
  | none => rfl
  | some place =>
      rw [Option.bind_some, Slot.getElem?_eq_getD (index?_eq_some_iff.mp found).1]
      rfl

/-- The elements of a list become others, which all values see that share it.  Nothing else
changes. -/
structure Machine.Relists (before after : Machine) (list : ListId) (slots : Array Slot) : Prop where
  here : after.store.items list = slots
  others : ∀ other, other ≠ list → after.store.items other = before.store.items other
  rest : after = before.withStore { before.store with lists := after.store.lists }
  shared : ∀ id, (before.store.object id).payload = .list list →
    (after.store.object id).payload = .list list

theorem Machine.relists_modifyItems {machine : Machine} {list : ListId}
    (inside : list.index < machine.store.lists.size) (change : Array Slot → Array Slot) :
    machine.Relists (machine.withStore (machine.store.modifyItems list change)) list
      (change (machine.store.items list)) where
  here := machine.store.lists.read_modify_same change inside
  others other different := by
    apply machine.store.lists.read_modify_away change
    intro same
    cases other
    cases list
    exact different (congrArg ListId.mk same.symm)
  rest := rfl
  shared _ known := known

namespace Library

open Activity

variable {before : Machine} (call : Invocation) {subject index : ObjectId}

theorem ends_list {list : ListId} (known : (before.store.object subject).payload = .list list)
    (ordinal : Option Nat) : (call.list ordinal subject).Ends before (.ok list) before := by
  apply Eval.Ends.bind (ends_payload subject before)
  rw [known]
  rfl

theorem ends_itemsOf (list : ListId) (before : Machine) :
    (itemsOf list).Ends before (.ok (before.store.items list)) before :=
  rfl

theorem ends_placeIn (list : ListId) {i : Int}
    (numbered : (before.store.object index).payload = .number (.int i))
    (complaint : Complaint) :
    (placeIn call complaint list index).Ends before
      ((Operation.index? (before.store.items list).size i).elim (.error (.failed (Operation.fault
        complaint call.start call.stop (some call.context)))) .ok) before := by
  have number : (call.number (some 1) index).Ends before (.ok (.int i)) before := by
    apply Eval.Ends.bind (ends_payload index before)
    rw [numbered]
    rfl
  apply Eval.Ends.bind number
  apply Eval.Ends.bind (ends_itemsOf list before)
  dsimp only [Operation.place?]
  cases Operation.index? (before.store.items list).size i <;> rfl

end Library

open Library in
/-- The places of lists.  On every machine, an index that is a whole number addresses an element of
a list just if it is not behind the last, and not further before the first than the list is long.
Dividing the list by it and getting it yield this element and change nothing.  Setting replaces this
element and no other, and popping yields and removes it.  Else all four fail, and nothing changes.
Appending adds a value at the end, and extending the elements of a list, which may be the same.  A
program that divides them gets the element itself, which is then placed where the quotient stands. -/
theorem list_places_agree (call : Invocation) (before : Machine) (subject index value : ObjectId)
    (list : ListId) (i : Int) (inside : list.index < before.store.lists.size)
    (known : (before.store.object subject).payload = .list list)
    (numbered : (before.store.object index).payload = .number (.int i)) :
    let slots := before.store.items list
    let quotient := Evaluator.operate .div (before.store.object subject) (before.store.object index)
    let beyond : Interrupt := .failed (Operation.fault .elementOutOfBounds
      (before.store.object index).start (before.store.object index).stop
        (before.store.object subject).context)
    let report (complaint : Complaint) : Interrupt :=
      .failed (Operation.fault complaint call.start call.stop (some call.context))
    ((∃ place, Operation.Points slots.size i place) ↔ -(slots.size : Int) ≤ i ∧ i < slots.size) ∧
    (∀ place, Operation.Points slots.size i place → ∃ slot, slots[place]? = some slot ∧
      quotient.Ends before (.ok slot) before ∧
      (answer call .get [subject, index]).Ends before (.ok slot) before ∧
      (∃ after, (answer call .set [subject, index, value]).Ends before (.ok null) after ∧
        before.Relists after list (slots.setIfInBounds place (.object value))) ∧
      ∃ after, (answer call .pop [subject, index]).Ends before (.ok slot) after ∧
        before.Relists after list (slots.eraseIdxIfInBounds place)) ∧
    ((∀ place, ¬Operation.Points slots.size i place) →
      quotient.Ends before (.error beyond) before ∧
      (answer call .get [subject, index]).Ends before (.error (report .getOutOfBounds)) before ∧
      (answer call .set [subject, index, value]).Ends before (.error (report .setOutOfBounds))
        before ∧
      (answer call .pop [subject, index]).Ends before (.error (report .popOutOfBounds)) before) ∧
    (∃ after, (answer call .append [subject, value]).Ends before (.ok null) after ∧
      before.Relists after list (slots.push (.object value))) ∧
    (∀ other added, (before.store.object other).payload = .list added →
      ∃ after, (answer call .extend [subject, other]).Ends before (.ok null) after ∧
        before.Relists after list (slots ++ before.store.items added)) ∧
    ∀ (limits : Limits) (depth : Nat) (span : Span) (left right : Script) (context : Context)
      (start middle : Machine),
      (Evaluator.atDepth limits depth left context).Ends start (.ok subject) middle →
      (Evaluator.atDepth limits depth right context).Ends middle (.ok index) before →
      let program := Evaluator.atDepth limits (depth + 1) (.binary span .div left right) context
      (∀ place id, Operation.Points slots.size i place → slots[place]? = some (.object id) →
        program.Ends start (.ok id) (before.withStore (before.store.modifyObject id fun object =>
          { object with start := some span.start, stop := some span.stop }))) ∧
      (∀ place slot, Operation.Points slots.size i place → slots[place]? = some slot →
        (∀ id, slot ≠ .object id) → program.result start = (.error .missingPart, before)) ∧
      ((∀ place, ¬Operation.Points slots.size i place) →
        program.Ends start (.error beyond) before) := by
  intro slots quotient beyond report
  have placed := ends_placeIn call list numbered
  have divides := Operation.binary_div_list before.store known numbered
  have looks := Eval.Ends.lift (Activity.ends_object subject before)
  have absent (away : ∀ place, ¬Operation.Points slots.size i place) :
      Operation.index? slots.size i = none :=
    Option.eq_none_iff_forall_ne_some.mpr fun place found =>
      away place (Operation.index?_eq_some_iff.mp found)
  refine ⟨Operation.exists_points_iff, ?_, ?_, ?_, ?_, ?_⟩
  · intro place points
    rw [Operation.index?_eq_some_iff.mpr points] at placed divides
    refine ⟨_, Slot.getElem?_eq_getD points.1, ?_, ?_,
      ⟨_, ?_, Machine.relists_modifyItems inside (·.setIfInBounds place (.object value))⟩,
      ⟨_, ?_, Machine.relists_modifyItems inside (·.eraseIdxIfInBounds place)⟩⟩
    · exact Eval.Ends.bind (Eval.Ends.lift (Activity.ends_store before))
        (Eval.Ends.bind (Eval.ends_settle divides before) rfl)
    · apply looks.bind
      rw [known]
      exact (placed _).bind rfl
    · apply looks.bind
      rw [known]
      exact (placed _).bind rfl
    · exact (ends_list call known _).bind ((placed _).bind rfl)
  · intro away
    rw [absent away] at placed divides
    refine ⟨?_, ?_, ?_, ?_⟩
    · exact Eval.Ends.bind (Eval.Ends.lift (Activity.ends_store before))
        (Eval.Ends.bind (Eval.ends_settle divides before) rfl)
    · apply looks.bind
      rw [known]
      exact (placed _).interrupted
    · apply looks.bind
      rw [known]
      exact (placed _).interrupted
    · exact (ends_list call known _).bind (placed _).interrupted
  · exact ⟨_, (ends_list call known _).bind rfl, Machine.relists_modifyItems inside _⟩
  · intro other added isList
    exact ⟨_, (ends_list call known _).bind ((ends_list call isList _).bind
      ((ends_itemsOf added before).bind rfl)), Machine.relists_modifyItems inside _⟩
  · intro limits depth span left right context start middle first second program
    have opened : program.result start = _ := Evaluator.result_binaryValue first second span .div
    rw [divides] at opened
    have here {place : Nat} {slot : Slot} (points : Operation.Points slots.size i place)
        (found : slots[place]? = some slot) : slots.getD place .nothing = slot :=
      Option.some.inj ((Slot.getElem?_eq_getD points.1).symm.trans found)
    refine ⟨?_, ?_, ?_⟩
    · intro place id points found
      rw [Operation.index?_eq_some_iff.mpr points, Option.elim_some, here points found] at opened
      exact opened
    · intro place slot points found bare
      rw [Operation.index?_eq_some_iff.mpr points, Option.elim_some, here points found] at opened
      cases slot with
      | object id => exact absurd rfl (bare id)
      | _ => exact opened
    · intro away
      rw [absent away] at opened
      exact opened

open Library in
/-- The index -2 addresses the second of three elements, and 3 none of them. -/
theorem list_places_agree_three :
    let before : Machine :=
      { globals := ⟨0⟩
        store :=
          { objects := ⟨#[{ payload := .list ⟨0⟩ }, { payload := .number (.int (-2)) },
              { payload := .number (.int 3) }]⟩
            lists := ⟨#[#[.object ⟨0⟩, .object ⟨1⟩, .object ⟨2⟩]]⟩ } }
    (answer default .get [⟨0⟩, ⟨1⟩]).Ends before (.ok (.object ⟨1⟩)) before ∧
    (∃ after, (answer default .pop [⟨0⟩, ⟨1⟩]).Ends before (.ok (.object ⟨1⟩)) after ∧
      after.store.items ⟨0⟩ = #[.object ⟨0⟩, .object ⟨2⟩]) ∧
    ∃ fault, (answer default .get [⟨0⟩, ⟨2⟩]).Ends before (.error (.failed fault)) before := by
  intro before
  obtain ⟨_, addressed, _⟩ :=
    list_places_agree default before ⟨0⟩ ⟨1⟩ ⟨1⟩ ⟨0⟩ (-2) (by decide) rfl rfl
  obtain ⟨slot, found, _, gets, _, after, pops, relists⟩ :=
    addressed 1 ⟨by decide, .inr (by decide)⟩
  cases found
  obtain ⟨within, _, fails, _⟩ :=
    list_places_agree default before ⟨0⟩ ⟨2⟩ ⟨1⟩ ⟨0⟩ 3 (by decide) rfl rfl
  have away : ∀ place, ¬Operation.Points 3 3 place := fun place points =>
    absurd (within.mp ⟨place, points⟩) (by decide)
  have rest := relists.here.trans
    (show _ = #[.object ⟨0⟩, .object ⟨2⟩] by simp [before, Store.items, Heap.read])
  exact ⟨gets, ⟨after, pops, rest⟩, _, (fails away).2.1⟩

end Lingo
