/-
What the functions of the language answer.

In a realm that lends, all lists and dictionaries hold only what may be in hand.  A function of the
language puts into them only its arguments, what it found in others and what it made, and these are
also all that it answers with.  Whatever stays within a footprint stays in a realm of its own.
-/

import Lingo.Proofs.Eval.Realm

namespace Lingo

namespace Realm

variable (realm : Realm)

/-- Whatever is complained of in a call is reported. -/
def Hears (call : Invocation) : Prop :=
  ∀ complaint, realm.reports
    (Operation.fault complaint call.start call.stop (some call.context))

/-- What is in hand may be put into lists and dictionaries, and what is found in a dictionary may be
in hand. -/
structure Trades : Prop where
  truth : ∀ {machine}, realm.holds machine → ∀ truth : Bool,
    realm.Takes machine (Library.truth truth)
  entries : ∀ {machine}, realm.holds machine → ∀ id, ∀ entry ∈ machine.store.entries id,
    realm.Takes machine entry.2
  modifyItems : ∀ {machine id} {change : Array Slot → Array Slot}, realm.holds machine →
    (∀ slot ∈ change (machine.store.items id), realm.Takes machine slot) →
      realm.Keeps machine (machine.withStore (machine.store.modifyItems id change))
  setEntry : ∀ {machine} (id text key) {value}, realm.holds machine → realm.Takes machine value →
    realm.Keeps machine (machine.withStore (machine.store.setEntry id text key value))
  reckon : ∀ {machine id} {n : Int}, realm.holds machine → realm.knows machine id →
    realm.reckons id → (machine.store.object id).payload = .number (.int n) →
      realm.Keeps machine (machine.withStore (machine.store.modifyObject id fun object =>
        { object with payload := .number (.int (Library.factorial n.toNat)) }))

/-- What is found anywhere may be in hand. -/
structure Lends : Prop extends realm.Trades where
  null : ∀ {machine}, realm.holds machine → realm.knows machine Store.nullId
  number : ∀ value, realm.owns (.number value)
  text : ∀ value, realm.owns (.text value)
  makeBare : ∀ {machine} {payload : Payload}, realm.holds machine → realm.owns payload →
    payload.isCallable = false →
      realm.Keeps machine (machine.withStore (machine.store.addObject { payload }).2) ∧
        realm.knows (machine.withStore (machine.store.addObject { payload }).2)
          ⟨machine.store.objects.size⟩
  addList : ∀ {machine items}, realm.holds machine → (∀ slot ∈ items, realm.Takes machine slot) →
    realm.Keeps machine (machine.withStore (machine.store.addList items).2) ∧
      realm.owns (.list ⟨machine.store.lists.size⟩)
  items : ∀ {machine}, realm.holds machine → ∀ id, ∀ slot ∈ machine.store.items id,
    realm.Takes machine slot
  print : ∀ {machine} (line : String), realm.holds machine →
    realm.Keeps machine { machine with output := machine.output ++ line ++ "\n" }
  read : ∀ {machine line rest}, realm.holds machine → machine.input = line :: rest →
    realm.Keeps machine { machine with input := rest }

end Realm

/-- An evaluation stays in a realm, and its answer may be in hand. -/
def Eval.Offers (realm : Realm) (evaluation : Eval Slot) (before : Machine) : Prop :=
  evaluation.Stays realm before fun slot after => realm.Takes after slot

/-! ### Arguments -/

namespace Invocation

open Eval

variable {realm : Realm} {before : Machine} {call : Invocation} (hears : realm.Hears call)

theorem stays_payload (id : ObjectId) :
    (payload id).Stays realm before fun payload after =>
      after = before ∧ payload = (before.store.object id).payload := by
  apply Eval.Stays.look (Activity.within_object id)
  intro object _ ended
  cases ended
  exact stays_pure ⟨rfl, rfl⟩

include hears

section

variable (ordinal : Option Nat) (id : ObjectId)

include ordinal id

theorem stays_text : (call.text ordinal id).Stays realm before fun _ _ => True := by
  apply Eval.Stays.bind (stays_payload id)
  intro payload reached _ _
  cases payload with
  | text value => exact stays_pure trivial
  | _ => exact stays_fail (hears _)

theorem stays_number :
    (call.number ordinal id).Stays realm before fun value after =>
      (after.store.object id).payload = .number value := by
  apply Eval.Stays.bind (stays_payload id)
  rintro payload _ _ ⟨rfl, held⟩
  cases payload with
  | number value => exact stays_pure held.symm
  | _ => exact stays_fail (hears _)

theorem stays_list : (call.list ordinal id).Stays realm before fun _ _ => True := by
  apply Eval.Stays.bind (stays_payload id)
  intro payload reached _ _
  cases payload with
  | list items => exact stays_pure trivial
  | _ => exact stays_fail (hears _)

theorem stays_dict : (call.dict ordinal id).Stays realm before fun _ _ => True := by
  apply Eval.Stays.bind (stays_payload id)
  intro payload reached _ _
  cases payload with
  | dict entries => exact stays_pure trivial
  | _ => exact stays_fail (hears _)

end

theorem stays_character (id : ObjectId) :
    (call.character id).Stays realm before fun _ _ => True := by
  apply (stays_text hears (some 1) id).bind
  intro text reached _ _
  dsimp only
  split
  · exact stays_fail (hears _)
  · exact stays_pure trivial

end Invocation

/-! ### Answers -/

namespace Library

open Eval

open Invocation (stays_text stays_number stays_list stays_dict stays_character)

variable {realm : Realm} {before : Machine} {call : Invocation}

theorem offers_fail (hears : realm.Hears call) (complaint : Complaint) :
    Offers realm (call.fail complaint) before :=
  stays_fail (hears complaint)

theorem stays_itemsOf {β : Type} {id : ListId} {next : Array Slot → Eval β}
    {post : β → Machine → Prop}
    (goesOn : realm.holds before → (next (before.store.items id)).Stays realm before post) :
    (itemsOf id >>= next).Stays realm before post := by
  have looked : (itemsOf id).Stays realm before fun items reached =>
      items = before.store.items id ∧ reached = before ∧ realm.holds before := by
    apply Stays.look Activity.within_store
    intro store holds read
    cases read
    exact stays_pure ⟨rfl, rfl, holds⟩
  apply looked.bind
  rintro _ _ _ ⟨rfl, rfl, holds⟩
  exact goesOn holds

theorem stays_placeIn (hears : realm.Hears call) (complaint : Complaint) (items : ListId)
    (index : ObjectId) :
    (placeIn call complaint items index).Stays realm before fun _ _ => True := by
  apply (stays_number hears (some 1) index).bind
  intro value reached _ _
  apply stays_itemsOf
  intro _
  split
  · exact stays_pure trivial
  · exact stays_fail (hears _)

variable (lends : realm.Lends)

include lends

theorem offers_null : Offers realm (pure null) before :=
  Activity.stays_holding fun holds => Realm.takes_object (lends.null holds)

theorem offers_truth (truth : Bool) : Offers realm (pure (Library.truth truth)) before :=
  Activity.stays_holding fun holds => lends.truth holds truth

theorem stays_makeBare {payload : Payload} (owns : realm.owns payload)
    (uncalled : payload.isCallable = false) :
    (Activity.makeBare payload).Stays realm before fun id after => realm.knows after id :=
  Activity.stays_of_ends _ (Activity.ends_addObject _ before) fun holds =>
    lends.makeBare holds owns uncalled

theorem offers_fresh {payload : Payload} (owns : realm.owns payload)
    (uncalled : payload.isCallable = false) : Offers realm (fresh payload) before := by
  apply Stays.act (stays_makeBare lends owns uncalled)
  intro id reached _ known
  exact stays_pure (Realm.takes_object known)

theorem offers_freshNumber (value : Scalar) : Offers realm (freshNumber value) before :=
  offers_fresh lends (lends.number value) rfl

theorem offers_newList {items : Array Slot} (takes : ∀ slot ∈ items, realm.Takes before slot) :
    Offers realm (do return .object (← Activity.makeList items)) before := by
  have made : (Activity.makeList items).Stays realm before fun id after =>
      realm.knows after id := by
    have added : (Activity.addList items).Stays realm before fun id _ => realm.owns (.list id) :=
      Activity.stays_of_ends _ (Activity.ends_addList items before) fun holds =>
        lends.addList holds takes
    apply added.bind
    intro id reached _ owns
    exact stays_makeBare lends owns rfl
  apply Stays.act made
  intro id reached _ known
  exact stays_pure (Realm.takes_object known)

theorem offers_bareList (held : List Scalar) :
    Offers realm (freshList (held.map .bare)) before := by
  apply offers_newList lends
  intro slot among id same
  obtain ⟨value, _, bare⟩ := List.mem_map.mp (List.mem_toArray.mp among)
  rw [← bare] at same
  cases same

theorem stays_changeItems {id : ListId} {change : Array Slot → Array Slot}
    (takes : realm.holds before → ∀ slot ∈ change (before.store.items id),
      slot ∈ before.store.items id ∨ realm.Takes before slot) :
    (Activity.changeStore (·.modifyItems id change)).Stays realm before fun _ _ => True := by
  refine Activity.stays_of_ends (before.withStore _) rfl fun holds => ⟨?_, trivial⟩
  apply lends.modifyItems holds
  intro slot among
  rcases takes holds slot among with old | new
  · exact lends.items holds id slot old
  · exact new

theorem offers_printValue (value : ObjectId) : Offers realm (printValue value) before := by
  apply Stays.look Activity.within_store
  intro store _ _
  apply Stays.settle
  intro text _
  have printed : (Activity.print text).Stays realm before fun _ _ => True :=
    Activity.stays_of_ends { before with output := before.output ++ text ++ "\n" } rfl
      fun holds => ⟨lends.print text holds, trivial⟩
  apply Stays.act printed
  intro _ reached _ _
  exact offers_null lends

theorem offers_input : Offers realm (do fresh (.text (← Activity.readLine))) before := by
  have read : Activity.readLine.Stays realm before fun _ _ => True := by
    apply Activity.Stays.look Activity.within_get
    intro machine _ got
    cases got
    cases input : before.input with
    | nil => exact Activity.stays_crash _
    | cons line rest =>
        exact Activity.stays_of_ends { before with input := rest } rfl fun holds =>
          ⟨lends.read holds input, trivial⟩
  apply Stays.act read
  intro line reached _ _
  exact offers_fresh lends (lends.text _) rfl

theorem offers_kindTest (test : Payload → Bool) (value : ObjectId) :
    Offers realm (kindTest test value) before := by
  apply Stays.look (Activity.within_object value)
  intro object _ _
  exact offers_truth lends _

section

variable (hears : realm.Hears call)

include hears

theorem offers_toText (value : ObjectId) : Offers realm (toText call value) before := by
  apply Stays.look (Activity.within_object value)
  intro object _ _
  split
  · exact offers_fail hears _
  · apply Stays.look Activity.within_store
    intro store _ _
    apply Stays.settle
    intro text _
    exact offers_fresh lends (lends.text text) rfl

theorem offers_convert (conversion : Scalar → Except Crash Scalar) (value : ObjectId) :
    Offers realm (convert call conversion value) before := by
  apply Stays.look Activity.within_store
  intro store _ _
  split
  · exact offers_freshNumber lends _
  · exact offers_fail hears _

/-! #### Texts -/

theorem offers_concat (left right : ObjectId) : Offers realm (concat call left right) before := by
  apply (stays_text hears (some 0) left).bind
  intro a _ _ _
  apply (stays_text hears (some 1) right).bind
  intro b _ _ _
  exact offers_fresh lends (lends.text _) rfl

theorem offers_splitChar (subject separator : ObjectId) :
    Offers realm (splitChar call subject separator) before := by
  apply (stays_text hears (some 0) subject).bind
  intro text _ _ _
  apply (stays_character hears separator).bind
  intro chars reached _ _
  cases chars with
  | nil => exact stays_crash _
  | cons char rest =>
      have bare : Offers realm (freshList (((Text.pieces char text.toList).map fun piece =>
          Scalar.text (String.ofList piece)).map .bare)) reached := offers_bareList lends _
      rw [List.map_map] at bare
      exact bare

theorem offers_slice (subject first last : ObjectId) :
    Offers realm (slice call subject first last) before := by
  apply (stays_text hears (some 0) subject).bind
  intro text _ _ _
  apply (stays_number hears (some 1) first).bind
  intro start _ _ _
  apply (stays_number hears (some 2) last).bind
  intro stop _ _ _
  apply Stays.settle
  intro startBeyond _
  split
  · exact offers_fail hears _
  · apply Stays.settle
    intro stopBeyond _
    split
    · exact offers_fail hears _
    · apply Stays.settle
      intro crossed _
      split
      · exact offers_fail hears _
      · split
        · exact offers_fresh lends (lends.text _) rfl
        · exact stays_crash _

theorem offers_frequency (subject wanted : ObjectId) :
    Offers realm (frequency call subject wanted) before := by
  apply (stays_text hears (some 0) subject).bind
  intro text _ _ _
  apply (stays_character hears wanted).bind
  intro chars _ _ _
  cases chars with
  | nil => exact offers_freshNumber lends _
  | cons char rest => exact offers_freshNumber lends _

theorem offers_findIndex (subject wanted : ObjectId) :
    Offers realm (findIndex call subject wanted) before := by
  apply (stays_text hears (some 0) subject).bind
  intro text _ _ _
  apply (stays_character hears wanted).bind
  intro chars _ _ _
  cases chars with
  | nil => exact offers_freshNumber lends _
  | cons char rest =>
      dsimp only
      split
      · exact offers_freshNumber lends _
      · exact offers_freshNumber lends _

/-! #### Lists and dictionaries -/

theorem offers_append (subject : ObjectId) {value : ObjectId} (known : realm.knows before value) :
    Offers realm (append call subject value) before := by
  apply (stays_list hears (some 0) subject).bind
  intro items reached kept _
  refine Stays.act (stays_changeItems lends fun _ slot among => ?_) fun _ _ _ _ =>
    offers_null lends
  rcases Array.mem_push.mp among with old | rfl
  · exact .inl old
  · exact .inr (Realm.takes_object (kept.knows value known))

theorem offers_extend (left right : ObjectId) : Offers realm (extend call left right) before := by
  apply (stays_list hears (some 0) left).bind
  intro a _ _ _
  apply (stays_list hears (some 1) right).bind
  intro b reached _ _
  apply stays_itemsOf
  intro holds
  refine Stays.act (stays_changeItems lends fun _ slot among => ?_) fun _ _ _ _ =>
    offers_null lends
  rcases Array.mem_append.mp among with old | added
  · exact .inl old
  · exact .inr (lends.items holds b slot added)

theorem offers_length (subject : ObjectId) : Offers realm (length call subject) before := by
  apply (stays_list hears none subject).bind
  intro items _ _ _
  apply stays_itemsOf
  intro _
  exact offers_freshNumber lends _

end

theorem takes_getD (holds : realm.holds before) (id : ListId) (place : Nat) :
    realm.Takes before ((before.store.items id).getD place .nothing) := by
  rw [Array.getD_eq_getD_getElem?]
  cases found : (before.store.items id)[place]? with
  | none => exact fun _ same => by cases same
  | some slot => exact lends.items holds id slot (Array.mem_of_getElem? found)

theorem offers_pop (hears : realm.Hears call) (subject index : ObjectId) :
    Offers realm (pop call subject index) before := by
  apply (stays_list hears (some 0) subject).bind
  intro items _ _ _
  apply (stays_placeIn hears .popOutOfBounds items index).bind
  intro place reached _ _
  apply stays_itemsOf
  intro holds
  have removed := takes_getD lends holds items place
  refine Stays.act (stays_changeItems lends fun _ slot among => ?_) fun _ _ kept _ =>
    stays_pure (removed.keeps kept)
  change slot ∈ dite _ _ _ at among
  split at among
  · exact .inl (Array.mem_of_mem_eraseIdx among)
  · exact .inl among

theorem offers_insert (hears : realm.Hears call) (subject index value : ObjectId) :
    Offers realm (insert call subject index value) before := by
  apply (stays_list hears (some 0) subject).bind
  intro items _ _ _
  apply (stays_number hears (some 1) index).bind
  intro position _ _ _
  apply stays_itemsOf
  intro _
  apply Stays.settle
  intro beyond _
  split
  · exact offers_fail hears _
  · apply Stays.look (Activity.within_scalar value)
    intro held _ _
    cases position with
    | int n =>
        dsimp only
        split
        · exact stays_crash _
        · refine Stays.act (stays_changeItems lends fun _ slot among => ?_) fun _ _ _ _ =>
            offers_null lends
          change slot ∈ dite _ _ _ at among
          split at among
          · rcases Array.mem_insertIdx.mp among with bare | old
            · exact .inr fun _ same => by
                rw [bare] at same
                cases same
            · exact .inl old
          · exact .inl among
    | _ => exact stays_crash _

theorem offers_sort (hears : realm.Hears call) (subject : ObjectId) :
    Offers realm (sort call subject) before := by
  apply (stays_list hears none subject).bind
  intro items _ _ _
  apply Stays.look Activity.within_store
  intro store _ _
  apply stays_itemsOf
  intro _
  apply Stays.look (Activity.within_part _)
  intro held _ _
  apply Stays.settle
  intro sorted _
  exact offers_bareList lends sorted

theorem stays_countUp (first : Int) (count : Nat) {made : Array Slot}
    (takes : ∀ slot ∈ made, realm.Takes before slot) :
    (countUp first count made).Stays realm before fun made after =>
      ∀ slot ∈ made, realm.Takes after slot := by
  induction count generalizing first made before with
  | zero => exact Activity.stays_pure takes
  | succ count ih =>
      apply (stays_makeBare lends (lends.number _) rfl).bind
      intro id reached kept known
      apply ih
      intro slot among
      rcases Array.mem_push.mp among with old | rfl
      · exact (takes slot old).keeps kept
      · exact Realm.takes_object known

variable (hears : realm.Hears call)

include hears

theorem offers_range (first limit : ObjectId) : Offers realm (range call first limit) before := by
  apply (stays_number hears (some 0) first).bind
  intro a _ _ _
  apply (stays_number hears (some 0) limit).bind
  intro b _ _ _
  split
  · apply Stays.act (stays_countUp lends _ _ fun _ none => absurd none (Array.not_mem_empty _))
    intro made reached _ takes
    exact offers_newList lends takes
  · exact stays_crash _

theorem offers_setElement (subject index : ObjectId) {value : ObjectId}
    (known : realm.knows before value) :
    Offers realm (setElement call subject index value) before := by
  apply Stays.look (Activity.within_object subject)
  intro object _ _
  cases object.payload with
  | list items =>
      apply (stays_placeIn hears .setOutOfBounds items index).bind
      intro place reached kept _
      refine Stays.act (stays_changeItems lends fun _ slot among => ?_) fun _ _ _ _ =>
        offers_null lends
      rcases Array.mem_or_eq_of_mem_setIfInBounds among with old | rfl
      · exact .inl old
      · exact .inr (Realm.takes_object (kept.knows value known))
  | dict entries =>
      apply (stays_text hears (some 1) index).bind
      intro key reached kept _
      have set : (Activity.changeStore (·.setEntry entries key index (.object value))).Stays realm
          reached fun _ _ => True := by
        refine Activity.stays_of_ends (reached.withStore _) rfl fun holds => ⟨?_, trivial⟩
        exact lends.setEntry entries key index holds
          (Realm.takes_object (kept.knows value known))
      exact Stays.act set fun _ _ _ _ => offers_null lends
  | _ => exact offers_fail hears _

theorem offers_getElement (subject index : ObjectId) :
    Offers realm (getElement call subject index) before := by
  apply Stays.look (Activity.within_object subject)
  intro object _ _
  cases object.payload with
  | list items =>
      apply (stays_placeIn hears .getOutOfBounds items index).bind
      intro place reached _ _
      apply stays_itemsOf
      intro holds
      exact stays_pure (takes_getD lends holds items place)
  | dict entries =>
      apply (stays_text hears (some 1) index).bind
      intro key reached _ _
      apply Stays.look Activity.within_store
      intro store holds read
      cases read
      split
      next entry found =>
        obtain ⟨place, _, known⟩ := Option.bind_eq_some_iff.mp found
        exact stays_pure (lends.entries holds entries entry (Array.mem_of_getElem? known))
      next => exact offers_fail hears _
  | _ => exact offers_fail hears _

theorem offers_hasKey (subject key : ObjectId) : Offers realm (hasKey call subject key) before := by
  apply (stays_dict hears (some 0) subject).bind
  intro entries _ _ _
  apply (stays_text hears (some 1) key).bind
  intro text _ _ _
  apply Stays.look Activity.within_store
  intro store _ _
  exact offers_truth lends _

/-! #### Numbers -/

theorem offers_unaryNumber (function : Scalar → Except Crash Scalar) (value : ObjectId) :
    Offers realm (unaryNumber call function value) before := by
  apply (stays_number hears none value).bind
  intro held _ _ _
  apply Stays.settle
  intro result _
  exact offers_freshNumber lends result

theorem offers_binaryNumber (function : Scalar → Scalar → Except Crash Scalar)
    (left right : ObjectId) : Offers realm (binaryNumber call function left right) before := by
  apply (stays_number hears none left).bind
  intro a _ _ _
  apply (stays_number hears none right).bind
  intro b _ _ _
  apply Stays.settle
  intro result _
  exact offers_freshNumber lends result

theorem offers_fact {value : ObjectId} (known : realm.knows before value)
    (reckons : realm.reckons value) : Offers realm (fact call value) before := by
  apply (stays_number hears none value).bind
  intro held reached kept number
  cases held with
  | int n =>
      have reckoned : (Activity.changeStore (·.modifyObject value fun object =>
          { object with payload := .number (.int (factorial n.toNat)) })).Stays realm reached
            fun _ _ => True :=
        Activity.stays_of_ends (reached.withStore _) rfl fun holds =>
          ⟨lends.reckon holds (kept.knows value known) reckons number, trivial⟩
      exact Stays.act reckoned fun _ _ _ _ => offers_freshNumber lends _
  | _ => exact stays_crash _

theorem offers_isPrime (rootOf : Scalar → Except Crash Int) (value : ObjectId) :
    Offers realm (isPrime rootOf call value) before := by
  apply (stays_number hears none value).bind
  intro held _ _ _
  apply Stays.settle
  intro remainder _
  split
  · exact offers_fail hears _
  · apply Stays.settle
    intro small _
    split
    · exact offers_fail hears _
    · apply Stays.settle
      intro prime _
      exact offers_truth lends prime

theorem offers_answer (builtin : Builtin) {arguments : List ObjectId}
    (known : ∀ id ∈ arguments, realm.knows before id)
    (spares : builtin = .fact → ∀ id ∈ arguments, realm.reckons id) :
    Offers realm (answer call builtin arguments) before := by
  unfold answer
  split
  · exact offers_printValue lends _
  · exact offers_input lends
  · exact offers_null lends
  · exact offers_kindTest lends _ _
  · exact offers_kindTest lends _ _
  · exact offers_kindTest lends _ _
  · exact offers_kindTest lends _ _
  · exact offers_append lends hears _ (known _ (by simp))
  · exact offers_setElement lends hears _ _ (known _ (by simp))
  · exact offers_pop lends hears _ _
  · exact offers_extend lends hears _ _
  · exact offers_getElement lends hears _ _
  · exact offers_length lends hears _
  · exact offers_toText lends hears _
  · exact offers_convert lends hears _ _
  · exact offers_convert lends hears _ _
  · exact offers_concat lends hears _ _
  · exact offers_splitChar lends hears _ _
  · exact offers_slice lends hears _ _ _
  · exact offers_frequency lends hears _ _
  · exact offers_findIndex lends hears _ _
  · exact offers_insert lends hears _ _ _
  · exact offers_unaryNumber lends hears _ _
  · exact offers_hasKey lends hears _ _
  · exact offers_range lends hears _ _
  · exact offers_binaryNumber lends hears _ _ _
  · exact offers_binaryNumber lends hears _ _ _
  · exact offers_unaryNumber lends hears _ _
  · exact offers_fact lends hears (known _ (by simp)) (spares rfl _ (by simp))
  · exact offers_sort lends hears _
  · exact offers_isPrime lends hears _ _
  · exact stays_crash _

end Library

namespace Footprint

variable {footprint : Footprint}

def realm (footprint : Footprint) (start : Machine) : Realm where
  knows _ _ := True
  owns _ := True
  reaches _ _ := True
  holds machine := footprint.touches start machine

theorem keeps_realm {start before after : Machine} (holds : (footprint.realm start).holds before)
    (touches : footprint.touches before after) : (footprint.realm start).Keeps before after where
  holds := footprint.trans holds touches
  knows _ _ := trivial
  reaches _ _ := trivial

theorem Allows.lends (allows : footprint.Allows) (start : Machine) :
    (footprint.realm start).Lends where
  null _ := trivial
  truth _ _ _ _ := trivial
  number _ := trivial
  text _ := trivial
  makeBare holds _ uncalled := ⟨keeps_realm holds (allows.makeBare _ uncalled _), trivial⟩
  addList holds _ := ⟨keeps_realm holds (allows.addList _ _), trivial⟩
  items _ _ _ _ _ _ := trivial
  entries _ _ _ _ _ _ := trivial
  modifyItems holds _ := keeps_realm holds (allows.modifyItems _ _ _)
  setEntry id text key _ holds _ := keeps_realm holds (allows.setEntry id text key _ _)
  reckon holds _ _ _ := keeps_realm holds (allows.reckon _ _ _)
  print line holds := keeps_realm holds (allows.print line _)
  read {machine line rest} holds input := by
    apply keeps_realm holds
    have ended : Activity.readLine.Ends machine line { machine with input := rest } := by
      unfold Activity.Ends Activity.readLine
      rw [Activity.run_bind_ended (Activity.ends_get machine), input]
      rfl
    have touched := allows.readLine machine
    rw [show Activity.readLine.run.run machine = _ from ended] at touched
    exact touched

end Footprint

theorem Library.within_answer (call : Invocation) {footprint : Footprint}
    (allows : footprint.Allows) (builtin : Builtin) (arguments : List ObjectId) :
    Eval.Within footprint (answer call builtin arguments) := by
  intro before
  have offers : (answer call builtin arguments).Offers (footprint.realm before) before :=
    offers_answer (allows.lends before) (fun _ => trivial) builtin (fun _ _ => trivial)
      fun _ _ _ => trivial
  exact (Activity.Stays.keeps offers (footprint.refl before) rfl).holds

end Lingo
