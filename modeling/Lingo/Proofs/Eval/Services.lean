/-
What the functions of the language do to the store.

All of them do deeds only.  Four of them let something slip: splitting, sorting and inserting put
bare scalars into lists, and the octal numeral of a number is a text in a number.  All other
numbers that are made hold texts only if a number held one before.
-/

import Lingo.Proofs.Eval.Proceeding

namespace Lingo

variable {id : ObjectId} {β : Type} {post : β → Machine → Prop}

/-! ### Numbers -/

def Numerical (result : Except Crash Scalar) : Prop :=
  ∀ value, result = .ok value → value.isText = false

namespace Numerical

theorem ok {value : Scalar} (number : value.isText = false) : Numerical (.ok value) := by
  intro other same
  cases same
  exact number

theorem error (cause : Crash) : Numerical (.error cause) := by
  intro other same
  cases same

theorem bind {α : Type} {first : Except Crash α} {next : α → Except Crash Scalar}
    (goesOn : ∀ a, Numerical (next a)) : Numerical (first >>= next) := by
  cases first with
  | error cause => exact error cause
  | ok a => exact goesOn a

theorem ite {condition : Prop} [Decidable condition] {one other : Except Crash Scalar}
    (first : Numerical one) (second : Numerical other) :
    Numerical (if condition then one else other) := by
  split
  · exact first
  · exact second

end Numerical

namespace Scalar

variable {a b : Scalar}

theorem numerical_add (number : a.isText = false) : Numerical (a.add b) := by
  unfold add
  split
  · cases number
  · apply Numerical.bind
    intro operands
    cases operands <;> exact .ok rfl

theorem numerical_sub (a b : Scalar) : Numerical (a.sub b) := by
  apply Numerical.bind
  intro operands
  cases operands <;> exact .ok rfl

theorem numerical_mul (left : a.isText = false) (right : b.isText = false) :
    Numerical (a.mul b) := by
  unfold mul
  split
  · cases left
  · cases right
  · apply Numerical.bind
    intro operands
    cases operands <;> exact .ok rfl

theorem numerical_div (a b : Scalar) : Numerical (a.div b) := by
  apply Numerical.bind
  intro operands
  cases operands with
  | ints a b =>
    dsimp only
    split
    · exact .error _
    · split
      · exact .ok rfl
      · exact .error _
  | floats a b => exact .ok rfl
  | complexes a b => exact .bind fun _ => .ok rfl

theorem numerical_floorDiv (a b : Scalar) : Numerical (a.floorDiv b) := by
  apply Numerical.bind
  intro operands
  cases operands with
  | complexes a b => exact .error _
  | _ => exact .ok rfl

theorem numerical_mod (number : a.isText = false) : Numerical (a.mod b) := by
  unfold mod
  split
  · cases number
  · apply Numerical.bind
    intro operands
    cases operands with
    | complexes a b => exact .error _
    | _ => exact .ok rfl

theorem numerical_floatPow (a b : Float) : Numerical (floatPow a b) := by
  have float : ∀ x : Float, Numerical (.ok (.float x)) := fun _ => .ok rfl
  unfold floatPow
  refine .ite (float _) (.ite (float _) (.ite (float _) (.ite ?_ (.ite ?_ (.ite ?_ (.ite ?_ ?_))))))
  · exact .ite (float _) (.ite (float _) (float _))
  · exact .ite (float _) (float _)
  · exact .ite (.error _) (float _)
  · exact .bind fun _ => .ok rfl
  · exact .ite (float _) (.ite (.error _) (float _))

theorem numerical_pow (a b : Scalar) : Numerical (a.pow b) := by
  apply Numerical.bind
  intro operands
  cases operands with
  | ints a b =>
    dsimp only
    split
    · exact .ok rfl
    · exact .bind fun _ => .bind fun _ => numerical_floatPow _ _
  | floats a b => exact numerical_floatPow a b
  | complexes a b => exact .bind fun _ => .ok rfl

theorem numerical_abs (a : Scalar) : Numerical a.abs := by
  cases a with
  | int n => exact .ok rfl
  | float x => exact .ok rfl
  | complex z => exact .bind fun _ => .ok rfl
  | text s => exact .error _

theorem numerical_both (a b : Scalar) : Numerical (a.both b) :=
  .bind fun _ => .ok rfl

theorem numerical_either (a b : Scalar) : Numerical (a.either b) :=
  .bind fun _ => .ok rfl

theorem numerical_min (left : a.isText = false) (right : b.isText = false) :
    Numerical (a.min b) := by
  apply Numerical.bind
  intro less
  cases less with
  | true => exact .ok right
  | false => exact .ok left

theorem numerical_max (left : a.isText = false) (right : b.isText = false) :
    Numerical (a.max b) := by
  apply Numerical.bind
  intro greater
  cases greater with
  | true => exact .ok right
  | false => exact .ok left

end Scalar

theorem Operation.numerical_scalars (op : BinaryOp) {a b : Scalar} (left : a.isText = false)
    (right : b.isText = false) : Numerical (scalars op a b) := by
  cases op with
  | add => exact Scalar.numerical_add left
  | sub => exact Scalar.numerical_sub a b
  | mul => exact Scalar.numerical_mul left right
  | div => exact Scalar.numerical_div a b
  | floorDiv => exact Scalar.numerical_floorDiv a b
  | mod => exact Scalar.numerical_mod left
  | pow => exact Scalar.numerical_pow a b
  | eq => exact .ok rfl
  | ne => exact .ok rfl
  | lt => exact .bind fun _ => .ok rfl
  | gt => exact .bind fun _ => .ok rfl
  | le => exact .bind fun _ => .ok rfl
  | ge => exact .bind fun _ => .ok rfl
  | both => exact Scalar.numerical_both a b
  | either => exact Scalar.numerical_either a b

namespace Store

variable {slips : Prop} {store : Store}

theorem isText_or_hasTextNumber {held : Scalar} (known : (store.object id).payload = .number held) :
    held.isText = false ∨ store.HasTextNumber := by
  cases isText : held.isText with
  | false => exact .inl rfl
  | true => exact .inr ⟨id, held, known, isText⟩

theorem sane_number {held : Scalar} (number : held.isText = false) :
    (Payload.number held).Sane slips store := by
  intro isText
  rw [number] at isText
  cases isText

end Store

/-! ### Arguments -/

namespace Invocation

open Eval

variable (call : Invocation) {slips : Prop} {before : Machine} {ordinal : Option Nat}

theorem proceeds_fail {α : Type} {post : α → Machine → Prop} (complaint : Complaint) :
    (call.fail complaint : Eval α).Proceeds slips before post :=
  Eval.proceeds_fail _

theorem after_payload {next : Payload → Eval β}
    (goesOn : (next (before.store.object id).payload).Proceeds slips before post) :
    (payload id >>= next).Proceeds slips before post := by
  have looked : (payload id).Proceeds slips before fun payload reached =>
      payload = (before.store.object id).payload ∧ reached = before :=
    .after (Activity.ends_object id before) (proceeds_pure ⟨rfl, rfl⟩)
  apply looked.bind
  rintro _ _ _ ⟨rfl, rfl⟩
  exact goesOn

theorem after_text {next : String → Eval β}
    (goesOn : ∀ text, before.store.text? id = some text → (next text).Proceeds slips before post) :
    (call.text ordinal id >>= next).Proceeds slips before post := by
  have looked : (call.text ordinal id).Proceeds slips before fun text reached =>
      before.store.text? id = some text ∧ reached = before := by
    apply after_payload
    cases known : (before.store.object id).payload with
    | text value =>
        refine proceeds_pure ⟨?_, rfl⟩
        unfold Store.text?
        rw [known]
    | _ => exact call.proceeds_fail _
  apply looked.bind
  rintro text _ _ ⟨known, rfl⟩
  exact goesOn text known

theorem after_number {next : Scalar → Eval β}
    (goesOn : ∀ held, (before.store.object id).payload = .number held →
      (next held).Proceeds slips before post) :
    (call.number ordinal id >>= next).Proceeds slips before post := by
  have looked : (call.number ordinal id).Proceeds slips before fun held reached =>
      (before.store.object id).payload = .number held ∧ reached = before := by
    apply after_payload
    cases known : (before.store.object id).payload with
    | number value => exact proceeds_pure ⟨rfl, rfl⟩
    | _ => exact call.proceeds_fail _
  apply looked.bind
  rintro held _ _ ⟨known, rfl⟩
  exact goesOn held known

theorem after_list {next : ListId → Eval β}
    (goesOn : ∀ items, (next items).Proceeds slips before post) :
    (call.list ordinal id >>= next).Proceeds slips before post := by
  have looked : (call.list ordinal id).Proceeds slips before fun _ reached => reached = before := by
    apply after_payload
    cases (before.store.object id).payload with
    | list items => exact proceeds_pure rfl
    | _ => exact call.proceeds_fail _
  apply looked.bind
  rintro items _ _ rfl
  exact goesOn items

theorem after_dict {next : DictId → Eval β}
    (goesOn : ∀ entries, (next entries).Proceeds slips before post) :
    (call.dict ordinal id >>= next).Proceeds slips before post := by
  have looked : (call.dict ordinal id).Proceeds slips before fun _ reached => reached = before := by
    apply after_payload
    cases (before.store.object id).payload with
    | dict entries => exact proceeds_pure rfl
    | _ => exact call.proceeds_fail _
  apply looked.bind
  rintro entries _ _ rfl
  exact goesOn entries

theorem after_character {next : List Char → Eval β}
    (goesOn : ∀ chars, (next chars).Proceeds slips before post) :
    (call.character id >>= next).Proceeds slips before post := by
  have looked : (call.character id).Proceeds slips before fun _ reached => reached = before := by
    apply call.after_text
    intro text _
    dsimp only
    split
    · exact call.proceeds_fail _
    · exact proceeds_pure rfl
  apply looked.bind
  rintro chars _ _ rfl
  exact goesOn chars

end Invocation

/-! ### The functions of the language -/

namespace Library

open Eval

variable (call : Invocation) {slips : Prop} {before : Machine}

theorem behaves_fresh {payload : Payload} (sane : payload.Sane slips before.store) :
    (fresh payload).Behaves slips before :=
  .act (Activity.proceeds_makeBare sane) fun _ _ _ _ => proceeds_pure trivial

theorem behaves_freshNumber {held : Scalar} (number : held.isText = false) :
    (freshNumber held).Behaves slips before :=
  behaves_fresh (Store.sane_number number)

theorem behaves_freshList {items : List Slot}
    (fit : ∀ slot ∈ items, before.store.Fits slips slot) :
    (freshList items).Behaves slips before := by
  apply Proceeds.act (Activity.proceeds_makeList _) fun _ _ _ _ => proceeds_pure trivial
  intro slot member
  exact fit slot (List.mem_toArray.mp member)

theorem after_itemsOf {id : ListId} {next : Array Slot → Eval β}
    (goesOn : (next (before.store.items id)).Proceeds slips before post) :
    (itemsOf id >>= next).Proceeds slips before post := by
  have looked : (itemsOf id).Proceeds slips before fun items reached =>
      items = before.store.items id ∧ reached = before :=
    .after (Activity.ends_store before) (proceeds_pure ⟨rfl, rfl⟩)
  apply looked.bind
  rintro _ _ _ ⟨rfl, rfl⟩
  exact goesOn

theorem behaves_kindTest (test : Payload → Bool) (value : ObjectId) :
    (kindTest test value).Behaves slips before :=
  .after (Activity.ends_object value before) (proceeds_pure trivial)

theorem behaves_printValue (value : ObjectId) : (printValue value).Behaves slips before := by
  apply Proceeds.after (Activity.ends_store before)
  apply after_settle
  intro text _
  exact .act (Activity.proceeds_print text) fun _ _ _ _ => proceeds_pure trivial

theorem behaves_toText (value : ObjectId) : (toText call value).Behaves slips before := by
  apply Proceeds.after (Activity.ends_object value before)
  split
  · exact call.proceeds_fail _
  · apply Proceeds.after (Activity.ends_store before)
    apply after_settle
    intro text _
    exact behaves_fresh trivial

theorem behaves_convert {conversion : Scalar → Except Crash Scalar}
    (numerical : ∀ held, Numerical (conversion held)) (value : ObjectId) :
    (convert call conversion value).Behaves slips before := by
  apply Proceeds.after (Activity.ends_store before)
  split
  next result known =>
    obtain ⟨held, _, converted⟩ := Option.map_eq_some_iff.mp known
    exact behaves_freshNumber (numerical held result converted)
  next => exact call.proceeds_fail _

theorem behaves_concat (left right : ObjectId) : (concat call left right).Behaves slips before := by
  apply call.after_text
  intro a _
  apply call.after_text
  intro b _
  exact behaves_fresh trivial

theorem behaves_splitChar (allowed : slips) (subject separator : ObjectId) :
    (splitChar call subject separator).Behaves slips before := by
  apply call.after_text
  intro text _
  apply call.after_character
  intro chars
  cases chars with
  | nil => exact proceeds_crash _
  | cons char rest =>
      apply behaves_freshList
      intro slot member
      obtain ⟨piece, _, rfl⟩ := List.mem_map.mp member
      exact .inr (.inr ⟨allowed, _, rfl⟩)

theorem behaves_slice (subject first last : ObjectId) :
    (slice call subject first last).Behaves slips before := by
  apply call.after_text
  intro text _
  apply call.after_number
  intro start _
  apply call.after_number
  intro stop _
  apply after_settle
  intro startBeyond _
  cases startBeyond with
  | true => exact call.proceeds_fail _
  | false =>
      apply after_settle
      intro stopBeyond _
      cases stopBeyond with
      | true => exact call.proceeds_fail _
      | false =>
          apply after_settle
          intro crossed _
          cases crossed with
          | true => exact call.proceeds_fail _
          | false =>
              simp only [Bool.false_eq_true, if_false]
              split
              · exact behaves_fresh trivial
              · exact proceeds_crash _

theorem behaves_frequency (subject wanted : ObjectId) :
    (frequency call subject wanted).Behaves slips before := by
  apply call.after_text
  intro text _
  apply call.after_character
  intro chars
  cases chars with
  | nil => exact behaves_freshNumber rfl
  | cons char rest => exact behaves_freshNumber rfl

theorem behaves_findIndex (subject wanted : ObjectId) :
    (findIndex call subject wanted).Behaves slips before := by
  apply call.after_text
  intro text _
  apply call.after_character
  intro chars
  cases chars with
  | nil => exact behaves_freshNumber rfl
  | cons char rest =>
      dsimp only
      split
      · exact behaves_freshNumber rfl
      · exact behaves_freshNumber rfl

/-! #### Lists -/

theorem behaves_changeItems {id : ListId} {change : Array Slot → Array Slot}
    (fit : ∀ slot ∈ change (before.store.items id), slot ∈ before.store.items id ∨
      before.store.Fits slips slot) {answer : Slot} :
    Behaves slips (do
      Activity.changeStore (·.modifyItems id change)
      return answer : Eval Slot) before := by
  have fits : ∀ slot ∈ change (before.store.items id), before.store.Fits slips slot := by
    intro slot member
    rcases fit slot member with old | new
    · exact .inr (.inl ⟨id, old⟩)
    · exact new
  exact .act (Activity.proceeds_changeStore (.changeList fits)) fun _ _ _ _ => proceeds_pure trivial

theorem behaves_append (subject : ObjectId) {value : ObjectId}
    (known : before.store.IsValue value) : (append call subject value).Behaves slips before := by
  apply call.after_list
  intro items
  apply behaves_changeItems
  intro slot member
  rcases Array.mem_push.mp member with old | rfl
  · exact .inl old
  · exact .inr (.inl ⟨value, rfl, known⟩)

theorem behaves_extend (left right : ObjectId) : (extend call left right).Behaves slips before := by
  apply call.after_list
  intro a
  apply call.after_list
  intro b
  apply after_itemsOf
  apply behaves_changeItems
  intro slot member
  rcases Array.mem_append.mp member with old | added
  · exact .inl old
  · exact .inr (.inr (.inl ⟨b, added⟩))

theorem behaves_length (subject : ObjectId) : (length call subject).Behaves slips before := by
  apply call.after_list
  intro items
  apply after_itemsOf
  exact behaves_freshNumber rfl

theorem after_placeIn {complaint : Complaint} {items : ListId} {index : ObjectId}
    {next : Nat → Eval β} (goesOn : ∀ place, (next place).Proceeds slips before post) :
    (placeIn call complaint items index >>= next).Proceeds slips before post := by
  have looked : (placeIn call complaint items index).Proceeds slips before fun _ reached =>
      reached = before := by
    apply call.after_number
    intro held _
    apply after_itemsOf
    split
    · exact proceeds_pure rfl
    · exact call.proceeds_fail _
  apply looked.bind
  rintro place _ _ rfl
  exact goesOn place

theorem behaves_pop (subject index : ObjectId) : (pop call subject index).Behaves slips before := by
  apply call.after_list
  intro items
  apply after_placeIn
  intro place
  apply after_itemsOf
  apply behaves_changeItems
  intro slot member
  change slot ∈ dite _ _ _ at member
  split at member
  · exact .inl (Array.mem_of_mem_eraseIdx member)
  · exact .inl member

theorem behaves_insert (allowed : slips) (subject index value : ObjectId) :
    (insert call subject index value).Behaves slips before := by
  apply call.after_list
  intro items
  apply call.after_number
  intro position _
  apply after_itemsOf
  apply after_settle
  intro beyond _
  cases beyond with
  | true => exact call.proceeds_fail _
  | false =>
      apply after_scalar
      intro held _
      cases position with
      | int n =>
          dsimp only
          split
          · exact proceeds_crash _
          · apply behaves_changeItems
            intro slot member
            change slot ∈ dite _ _ _ at member
            split at member
            · rcases Array.mem_insertIdx.mp member with rfl | old
              · exact .inr (.inr (.inr ⟨allowed, held, rfl⟩))
              · exact .inl old
            · exact .inl member
      | _ => exact proceeds_crash _

theorem behaves_sort (allowed : slips) (subject : ObjectId) :
    (sort call subject).Behaves slips before := by
  apply call.after_list
  intro items
  apply Proceeds.after (Activity.ends_store before)
  apply after_itemsOf
  apply after_part
  intro held _
  apply after_settle
  intro sorted _
  apply behaves_freshList
  intro slot member
  obtain ⟨value, _, rfl⟩ := List.mem_map.mp member
  exact .inr (.inr ⟨allowed, value, rfl⟩)

theorem proceeds_countUp (first : Int) (count : Nat) (made : Array Slot)
    (values : ∀ slot ∈ made, ∃ id, slot = .object id ∧ before.store.IsValue id) :
    (countUp first count made).Proceeds slips before fun made after =>
      ∀ slot ∈ made, ∃ id, slot = .object id ∧ after.store.IsValue id := by
  induction count generalizing first made before with
  | zero => exact Activity.proceeds_pure values
  | succ count ih =>
      have sane : (Payload.number (.int first)).Sane slips before.store := Store.sane_number rfl
      apply (Activity.proceeds_makeBare sane).bind
      intro id reached done payload
      apply ih
      intro slot member
      rcases Array.mem_push.mp member with old | rfl
      -- the numbers made before stay values while the next one is made
      · obtain ⟨other, same, known⟩ := values slot old
        exact ⟨other, same, known.deeds done⟩
      · exact ⟨id, rfl, congrArg Payload.isKind payload⟩

theorem behaves_range (first limit : ObjectId) : (range call first limit).Behaves slips before := by
  apply call.after_number
  intro a _
  apply call.after_number
  intro b _
  split
  · apply Proceeds.act (proceeds_countUp _ _ #[] fun _ none => absurd none (Array.not_mem_empty _))
    intro made reached _ values
    apply Proceeds.act (Activity.proceeds_makeList _) fun _ _ _ _ => proceeds_pure trivial
    intro slot member
    exact .inl (values slot member)
  · exact proceeds_crash _

/-! #### Lists and dictionaries -/

theorem behaves_setElement (subject index : ObjectId) {value : ObjectId}
    (known : before.store.IsValue value) :
    (setElement call subject index value).Behaves slips before := by
  apply Proceeds.after (Activity.ends_object subject before)
  cases (before.store.object subject).payload with
  | list items =>
      apply after_placeIn
      intro place
      apply behaves_changeItems
      intro slot member
      rcases Array.mem_or_eq_of_mem_setIfInBounds member with old | rfl
      · exact .inl old
      · exact .inr (.inl ⟨value, rfl, known⟩)
  | dict entries =>
      apply call.after_text
      intro key named
      exact .act (Activity.proceeds_changeStore (.setEntry named)) fun _ _ _ _ =>
        proceeds_pure trivial
  | _ => exact call.proceeds_fail _

theorem behaves_getElement (subject index : ObjectId) :
    (getElement call subject index).Behaves slips before := by
  apply Proceeds.after (Activity.ends_object subject before)
  cases (before.store.object subject).payload with
  | list items =>
      apply after_placeIn
      intro place
      apply after_itemsOf
      exact proceeds_pure trivial
  | dict entries =>
      apply call.after_text
      intro key _
      apply Proceeds.after (Activity.ends_store before)
      split
      · exact proceeds_pure trivial
      · exact call.proceeds_fail _
  | _ => exact call.proceeds_fail _

theorem behaves_hasKey (subject key : ObjectId) :
    (hasKey call subject key).Behaves slips before := by
  apply call.after_dict
  intro entries
  apply call.after_text
  intro text _
  exact .after (Activity.ends_store before) (proceeds_pure trivial)

/-! #### Numbers -/

theorem behaves_unaryNumber {function : Scalar → Except Crash Scalar}
    (numerical : ∀ held, held.isText = false → Numerical (function held)) (value : ObjectId) :
    (unaryNumber call function value).Behaves slips before := by
  apply call.after_number
  intro held known
  apply after_settle
  intro result computed
  apply behaves_fresh
  intro isText
  rcases Store.isText_or_hasTextNumber known with number | already
  · rw [numerical held number result computed] at isText
    cases isText
  · exact .inr already

theorem behaves_octal (allowed : slips) (value : ObjectId) :
    (unaryNumber call octal value).Behaves slips before := by
  apply call.after_number
  intro held _
  apply after_settle
  intro result _
  exact behaves_fresh fun _ => .inl allowed

theorem behaves_binaryNumber {function : Scalar → Scalar → Except Crash Scalar}
    (numerical : ∀ a b, a.isText = false → b.isText = false → Numerical (function a b))
    (left right : ObjectId) : (binaryNumber call function left right).Behaves slips before := by
  apply call.after_number
  intro a knownA
  apply call.after_number
  intro b knownB
  apply after_settle
  intro result computed
  apply behaves_fresh
  intro isText
  rcases Store.isText_or_hasTextNumber knownA with numberA | already
  · rcases Store.isText_or_hasTextNumber knownB with numberB | already
    · rw [numerical a b numberA numberB result computed] at isText
      cases isText
    · exact .inr already
  · exact .inr already

theorem behaves_fact (value : ObjectId) : (fact call value).Behaves slips before := by
  apply call.after_number
  intro held known
  cases held with
  | int n =>
      apply Proceeds.act (Activity.proceeds_changeStore (.reckon known fun _ => rfl))
      intro _ reached _ _
      exact behaves_freshNumber rfl
  | _ => exact proceeds_crash _

theorem behaves_isPrime (rootOf : Scalar → Except Crash Int) (value : ObjectId) :
    (isPrime rootOf call value).Behaves slips before := by
  apply call.after_number
  intro held _
  apply after_settle
  intro remainder _
  split
  · exact call.proceeds_fail _
  · apply after_settle
    intro small _
    cases small with
    | true => exact call.proceeds_fail _
    | false =>
        apply after_settle
        intro prime _
        exact proceeds_pure trivial

end Library

def Builtin.slippery : List Builtin :=
  [.splitChar, .insert, .sort, .oct]

namespace Library

open Eval

variable (call : Invocation) {slips : Prop} {before : Machine}

theorem behaves_answer {builtin : Builtin} (careful : builtin ∈ Builtin.slippery → slips)
    {arguments : List ObjectId} (values : ∀ id ∈ arguments, before.store.IsValue id) :
    (answer call builtin arguments).Behaves slips before := by
  unfold answer
  split
  · exact behaves_printValue _
  · exact .act Activity.proceeds_readLine fun _ _ _ _ => behaves_fresh trivial
  · exact proceeds_pure trivial
  · exact behaves_kindTest _ _
  · exact behaves_kindTest _ _
  · exact behaves_kindTest _ _
  · exact behaves_kindTest _ _
  · exact behaves_append call _ (values _ (by simp))
  · exact behaves_setElement call _ _ (values _ (by simp))
  · exact behaves_pop call _ _
  · exact behaves_extend call _ _
  · exact behaves_getElement call _ _
  · exact behaves_length call _
  · exact behaves_toText call _
  · exact behaves_convert call (fun _ => .bind fun _ => .ok rfl) _
  · exact behaves_convert call (fun _ => .bind fun _ => .ok rfl) _
  · exact behaves_concat call _ _
  · exact behaves_splitChar call (careful (by simp [Builtin.slippery])) _ _
  · exact behaves_slice call _ _ _
  · exact behaves_frequency call _ _
  · exact behaves_findIndex call _ _
  · exact behaves_insert call (careful (by simp [Builtin.slippery])) _ _ _
  · exact behaves_unaryNumber call (fun held _ => Scalar.numerical_abs held) _
  · exact behaves_hasKey call _ _
  · exact behaves_range call _ _
  · exact behaves_binaryNumber call (fun _ _ => Scalar.numerical_min) _ _
  · exact behaves_binaryNumber call (fun _ _ => Scalar.numerical_max) _ _
  · exact behaves_octal call (careful (by simp [Builtin.slippery])) _
  · exact behaves_fact call _
  · exact behaves_sort call (careful (by simp [Builtin.slippery])) _
  · exact behaves_isPrime call _ _
  · exact proceeds_crash _

end Library

end Lingo
