/-
What scripts can do to the store.

Whatever a script does comes down to a few deeds, each with a condition under which it is done.
So what all deeds preserve holds in every store that a script can reach.  Two deeds may let
something slip: a bare scalar into a list, or a text into a number.
-/

import Mathlib.Logic.Relation
import Lingo.Proofs.Eval.Tidiness

namespace Lingo

variable {id : ObjectId} {slips : Prop} {store before after : Store} {text : String}

/-! ### Heaps as a whole -/

namespace Heap

variable {α : Type} [Inhabited α]

theorem read_of_le {heap : Heap α} {address : Nat} (outside : heap.size ≤ address) :
    heap.read address = default := by
  simp only [size] at outside
  simp [read, outside]

theorem read_push_cases (heap : Heap α) (cell : α) (address : Nat) :
    (heap.push cell).read address = heap.read address ∨
      address = heap.size ∧ (heap.push cell).read address = cell := by
  rcases Nat.lt_trichotomy address heap.size with inside | same | outside
  · exact .inl (heap.read_push_old cell inside)
  · rw [same]
    exact .inr ⟨rfl, heap.read_push_new cell⟩
  · left
    have beyond : (heap.push cell).size ≤ address := by
      rw [size_push]
      exact outside
    rw [read_of_le beyond, read_of_le (Nat.le_of_lt outside)]

theorem read_modify_cases (heap : Heap α) (place : Nat) (change : α → α) (address : Nat) :
    (heap.modify place change).read address = heap.read address ∨
      place = address ∧ address < heap.size ∧
        (heap.modify place change).read address = change (heap.read address) := by
  by_cases same : place = address
  · subst same
    rcases Nat.lt_or_ge place heap.size with inside | outside
    · exact .inr ⟨rfl, inside, heap.read_modify_same change inside⟩
    · left
      have beyond : (heap.modify place change).size ≤ place := by
        rw [size_modify]
        exact outside
      rw [read_of_le beyond, read_of_le outside]
  · exact .inl (heap.read_modify_away change same)

variable {heap : Heap α} (property : Nat → α → Prop)
  (old : ∀ address, property address (heap.read address))

include property old

theorem forall_read_push {cell : α} (new : property heap.size cell) (address : Nat) :
    property address ((heap.push cell).read address) := by
  rcases heap.read_push_cases cell address with same | ⟨rfl, made⟩
  · rw [same]
    exact old address
  · rw [made]
    exact new

theorem forall_read_modify {place : Nat} {change : α → α}
    (new : property place (change (heap.read place))) (address : Nat) :
    property address ((heap.modify place change).read address) := by
  rcases heap.read_modify_cases place change address with same | ⟨rfl, _, changed⟩
  · rw [same]
    exact old address
  · rw [changed]
    exact new

end Heap

/-! ### Values -/

def Scalar.isText : Scalar → Bool
  | .text _ => true
  | _ => false

/-- Whether a payload is of a kind of its own: a number, a text, a list, a dictionary or a
function. -/
def Payload.isKind : Payload → Bool
  | .plain => false
  | .bodiless _ => false
  | _ => true

namespace Store

/-- An object is a value of the language. -/
def IsValue (store : Store) (id : ObjectId) : Prop :=
  (store.object id).payload.isKind = true

def HoldsText (store : Store) (id : ObjectId) : Prop :=
  ∃ held, store.scalar? id = some held ∧ held.isText = true

def HasTextNumber (store : Store) : Prop :=
  ∃ id held, (store.object id).payload = .number held ∧ held.isText = true

def keys (store : Store) (id : DictId) : List ObjectId :=
  (store.entries id).toList.map Prod.fst

def Distinct (store : Store) (keys : List ObjectId) : Prop :=
  (∀ key ∈ keys, ∃ text, store.text? key = some text) ∧ (keys.map store.text?).Nodup

/-- What may come into a list: a value, or what is in some list already.  If anything slips, then
also a bare scalar. -/
def Fits (slips : Prop) (store : Store) (slot : Slot) : Prop :=
  (∃ id, slot = .object id ∧ store.IsValue id) ∨
    (∃ other, slot ∈ store.items other) ∨ (slips ∧ ∃ held, slot = .bare held)

theorem IsValue.inside (value : store.IsValue id) : id.index < store.objects.size := by
  apply Nat.lt_of_not_le
  intro outside
  have absent : store.object id = default := Heap.read_of_le outside
  unfold IsValue at value
  rw [absent] at value
  cases value

theorem payload_of_text? (known : store.text? id = some text) :
    (store.object id).payload = .text text := by
  unfold text? at known
  split at known
  next held =>
    cases known
    exact held
  next => cases known

theorem isValue_of_text? (known : store.text? id = some text) : store.IsValue id :=
  congrArg Payload.isKind (payload_of_text? known)

end Store

/-- What a payload may be that is new.  A number holds a text only if anything slips, or if there
is such a number already; a dictionary is there. -/
def Payload.Sane (slips : Prop) (store : Store) : Payload → Prop
  | .number held => held.isText = true → slips ∨ store.HasTextNumber
  | .function closure => closure.body.Tidy
  | .dict id => id.index < store.dicts.size
  | .plain => False
  | .bodiless _ => False
  | _ => True

/-! ### Deeds -/

/-- What may be done to a store at a time. -/
inductive Deed (slips : Prop) (store : Store) : Store → Prop where
  | make {object : Object} (sane : object.payload.Sane slips store) :
      Deed slips store (store.addObject object).2
  | copy {object : Object} {id : ObjectId} (value : store.IsValue id)
      (same : object.payload = (store.object id).payload) :
      Deed slips store (store.addObject object).2
  | claim {id : ObjectId} {change : Object → Object}
      (kept : ∀ object, (change object).payload = object.payload) :
      Deed slips store (store.modifyObject id change)
  | reckon {id : ObjectId} {change : Object → Object} {before after : Int}
      (whole : (store.object id).payload = .number (.int before))
      (counted : ∀ object, (change object).payload = .number (.int after)) :
      Deed slips store (store.modifyObject id change)
  | addList {items : Array Slot} (fit : ∀ slot ∈ items, store.Fits slips slot) :
      Deed slips store (store.addList items).2
  | changeList {id : ListId} {change : Array Slot → Array Slot}
      (fit : ∀ slot ∈ change (store.items id), store.Fits slips slot) :
      Deed slips store (store.modifyItems id change)
  | addDict {entries : Array (ObjectId × Slot)}
      (distinct : store.Distinct (entries.toList.map Prod.fst)) :
      Deed slips store (store.addDict entries).2
  | setEntry {id : DictId} {text : String} {key : ObjectId} {value : Slot}
      (named : store.text? key = some text) : Deed slips store (store.setEntry id text key value)
  /-- Tables and defaults may change in any way. -/
  | aside {after : Store} (objects : after.objects = store.objects)
      (lists : after.lists = store.lists) (dicts : after.dicts = store.dicts) :
      Deed slips store after

def Deeds (slips : Prop) : Store → Store → Prop :=
  Relation.ReflTransGen (Deed slips)

namespace Deeds

variable {slips : Prop} {before middle after : Store}

theorem refl (store : Store) : Deeds slips store store :=
  Relation.ReflTransGen.refl

theorem trans (first : Deeds slips before middle) (second : Deeds slips middle after) :
    Deeds slips before after :=
  Relation.ReflTransGen.trans first second

theorem single (deed : Deed slips before after) : Deeds slips before after :=
  Relation.ReflTransGen.single deed

theorem induction (done : Deeds slips before after) (property : Store → Prop)
    (step : ∀ {before after}, Deed slips before after → property before → property after)
    (start : property before) : property after := by
  induction done with
  | refl => exact start
  | tail _ deed held => exact step deed held

end Deeds

/-! ### What becomes of an object -/

def Payload.Becomes (before after : Payload) : Prop :=
  after = before ∨ ∃ old new, before = .number (.int old) ∧ after = .number (.int new)

namespace Payload.Becomes

theorem refl (payload : Payload) : payload.Becomes payload :=
  .inl rfl

theorem trans {first second third : Payload} (one : first.Becomes second)
    (two : second.Becomes third) : first.Becomes third := by
  rcases one with rfl | ⟨old, new, was, rfl⟩
  · exact two
  · rcases two with rfl | ⟨_, newer, _, rfl⟩
    · exact .inr ⟨old, new, was, rfl⟩
    · exact .inr ⟨old, newer, was, rfl⟩

theorem isKind {before after : Payload} (becomes : before.Becomes after)
    (kind : before.isKind = true) : after.isKind = true := by
  rcases becomes with rfl | ⟨_, _, _, rfl⟩
  · exact kind
  · rfl

end Payload.Becomes

namespace Store

theorem becomes_modifyObject {change : Object → Object}
    (changed : (store.object id).payload.Becomes (change (store.object id)).payload)
    (other : ObjectId) :
    (store.object other).payload.Becomes ((store.modifyObject id change).object other).payload := by
  by_cases same : id.index = other.index
  · rcases Nat.lt_or_ge id.index store.objects.size with inside | outside
    · have here : (store.modifyObject id change).object other = change (store.object id) := by
        unfold object modifyObject
        rw [← same]
        exact store.objects.read_modify_same change inside
      have there : store.object other = store.object id := by
        unfold object
        rw [same]
      rw [here, there]
      exact changed
    · have absent : ∀ heap : Heap Object, heap.size = store.objects.size →
          heap.read other.index = default := by
        intro heap size
        apply Heap.read_of_le
        omega
      have here : (store.modifyObject id change).object other = default :=
        absent _ (store.objects.size_modify id.index change)
      have there : store.object other = default := absent _ rfl
      rw [here, there]
      exact .refl _
  · have away : (store.modifyObject id change).object other = store.object other :=
      store.objects.read_modify_away change same
    rw [away]
    exact .refl _

end Store

/-- A value stays what it is, except that a whole number may become another one. -/
theorem Deed.becomes (deed : Deed slips before after) (value : before.IsValue id) :
    (before.object id).payload.Becomes (after.object id).payload := by
  have grown : ∀ object, ((before.addObject object).2.object id) = before.object id :=
    fun object => (before.extends_addObject object).keeps id value.inside
  cases deed with
  | make sane =>
      rw [grown]
      exact .refl _
  | copy _ same =>
      rw [grown]
      exact .refl _
  | claim kept => exact Store.becomes_modifyObject (.inl (kept _)) id
  | reckon whole counted =>
      exact Store.becomes_modifyObject (.inr ⟨_, _, whole, counted _⟩) id
  | addList fit => exact .refl _
  | changeList fit => exact .refl _
  | addDict distinct => exact .refl _
  | setEntry named =>
      unfold Store.setEntry
      split <;> exact .refl _
  | aside objects lists dicts =>
      unfold Store.object
      rw [objects]
      exact .refl _

theorem Store.IsValue.deed (value : before.IsValue id) (deed : Deed slips before after) :
    after.IsValue id :=
  (deed.becomes value).isKind value

theorem Deeds.becomes (done : Deeds slips before after) (value : before.IsValue id) :
    (before.object id).payload.Becomes (after.object id).payload := by
  -- one deed changes a payload in a known way only where there is a value, so both go together
  have both := done.induction
    (fun store => (before.object id).payload.Becomes (store.object id).payload ∧ store.IsValue id)
    (fun deed held => ⟨held.1.trans (deed.becomes held.2), held.2.deed deed⟩) ⟨.refl _, value⟩
  exact both.1

namespace Store

variable {slips : Prop} {before after : Store}

theorem IsValue.deeds (value : before.IsValue id) (done : Deeds slips before after) :
    after.IsValue id :=
  (done.becomes value).isKind value

theorem text?_of_deeds (known : before.text? id = some text) (done : Deeds slips before after) :
    after.text? id = some text := by
  rcases done.becomes (isValue_of_text? known) with same | ⟨_, _, was, _⟩
  · unfold text? at known ⊢
    rw [same]
    exact known
  · unfold text? at known
    rw [was] at known
    cases known

theorem holdsText_of_deeds (value : before.IsValue id) (done : Deeds slips before after)
    (holds : after.HoldsText id) : before.HoldsText id := by
  obtain ⟨held, known, isText⟩ := holds
  rcases done.becomes value with same | ⟨_, _, _, becomes⟩
  · refine ⟨held, ?_, isText⟩
    unfold scalar? at known ⊢
    rw [← same]
    exact known
  · unfold scalar? at known
    rw [becomes] at known
    cases known
    cases isText

theorem Distinct.of_texts {keys : List ObjectId} (distinct : before.Distinct keys)
    (kept : ∀ id text, before.text? id = some text → after.text? id = some text) :
    after.Distinct keys := by
  have same : keys.map after.text? = keys.map before.text? := by
    apply List.map_congr_left
    intro key member
    obtain ⟨text, known⟩ := distinct.1 key member
    rw [known]
    exact kept key text known
  constructor
  · intro key member
    obtain ⟨text, known⟩ := distinct.1 key member
    exact ⟨text, kept key text known⟩
  · rw [same]
    exact distinct.2

end Store

/-! ### Sound stores -/

namespace Store

/-- What every store that a script can reach is like. -/
structure Sound (store : Store) : Prop where
  elements : ∀ id, ∀ slot ∈ store.items id,
    (∃ value, slot = .object value ∧ store.IsValue value) ∨ ∃ held, slot = .bare held
  null : store.IsValue nullId
  bodies : ∀ id closure, (store.object id).payload = .function closure → closure.body.Tidy
  keys : ∀ id, store.Distinct (store.keys id)
  dicts : ∀ id dict, (store.object id).payload = .dict dict → dict.index < store.dicts.size

/-- What a store is like as long as nothing has slipped. -/
structure Proper (store : Store) : Prop where
  elements : ∀ id, ∀ slot ∈ store.items id, ∃ value, slot = .object value ∧ store.IsValue value
  numbers : ∀ id held, (store.object id).payload = .number held → held.isText = false

theorem Fits.sound (sound : store.Sound) {slot : Slot} (fits : store.Fits slips slot) :
    (∃ value, slot = .object value ∧ store.IsValue value) ∨ ∃ held, slot = .bare held := by
  rcases fits with value | ⟨other, among⟩ | ⟨_, bare⟩
  · exact .inl value
  · exact sound.elements other slot among
  · exact .inr bare

theorem Fits.proper (proper : store.Proper) {slot : Slot} (fits : store.Fits False slot) :
    ∃ value, slot = .object value ∧ store.IsValue value := by
  rcases fits with value | ⟨other, among⟩ | ⟨slipped, _⟩
  · exact value
  · exact proper.elements other slot among
  · exact slipped.elim

/-- What holds of the elements of all lists, and of all that fits, holds after a deed of the
elements of all lists. -/
theorem elements_of_deed {property : Slot → Prop} (deed : Deed slips before after)
    (old : ∀ id, ∀ slot ∈ before.items id, property slot)
    (new : ∀ slot, before.Fits slips slot → property slot) (id : ListId) :
    ∀ slot ∈ after.items id, property slot := by
  cases deed with
  | make sane => exact old id
  | copy value same => exact old id
  | claim kept => exact old id
  | reckon whole counted => exact old id
  | addDict distinct => exact old id
  | addList fit =>
      exact Heap.forall_read_push (fun _ (items : Array Slot) => ∀ slot ∈ items, property slot)
        (fun address => old ⟨address⟩) (fun slot member => new slot (fit slot member)) id.index
  | changeList fit =>
      exact Heap.forall_read_modify (fun _ (items : Array Slot) => ∀ slot ∈ items, property slot)
        (fun address => old ⟨address⟩) (fun slot member => new slot (fit slot member)) id.index
  | setEntry named =>
      have same : ∀ store : Store, store.lists = before.lists →
          store.items id = before.items id := by
        intro store lists
        unfold items
        rw [lists]
      rw [same _ (by unfold setEntry; split <;> rfl)]
      exact old id
  | aside objects lists dicts =>
      unfold items
      rw [lists]
      exact old id

/-- What holds of the payloads of all objects, and of all that are sane or become of them, holds
after a deed. -/
theorem payloads_of_deed (property : Payload → Prop) (deed : Deed slips before after)
    (old : ∀ id, property (before.object id).payload)
    (new : ∀ payload, payload.Sane slips before → property payload)
    (whole : ∀ n, property (.number (.int n))) (id : ObjectId) :
    property (after.object id).payload := by
  have unchanged : ∀ store : Store, store.objects = before.objects →
      property (store.object id).payload := by
    intro store objects
    unfold object
    rw [objects]
    exact old id
  have added : ∀ object : Object, property object.payload →
      property ((before.addObject object).2.object id).payload := by
    intro object made
    exact Heap.forall_read_push (fun _ (object : Object) => property object.payload)
      (fun address => old ⟨address⟩) made id.index
  have modified : ∀ (place : ObjectId) (change : Object → Object),
      property (change (before.object place)).payload →
        property ((before.modifyObject place change).object id).payload := by
    intro place change made
    exact Heap.forall_read_modify (fun _ (object : Object) => property object.payload)
      (fun address => old ⟨address⟩) made id.index
  cases deed with
  | make sane => exact added _ (new _ sane)
  | copy value same =>
      apply added
      rw [same]
      exact old _
  | claim kept =>
      apply modified
      rw [kept]
      exact old _
  | reckon was counted =>
      apply modified
      rw [counted]
      exact whole _
  | addList fit => exact old id
  | changeList fit => exact old id
  | addDict distinct => exact old id
  | setEntry named =>
      apply unchanged
      unfold setEntry
      split <;> rfl
  | aside objects lists dicts => exact unchanged _ objects

end Store

/-! #### Soundness is kept -/

namespace Store

theorem map_fst_modify (entries : Array (ObjectId × Slot)) (place : Nat) (value : Slot) :
    (entries.modify place fun entry => (entry.1, value)).toList.map Prod.fst =
      entries.toList.map Prod.fst := by
  apply List.ext_getElem?
  intro index
  simp only [List.getElem?_map, Array.getElem?_toList, Array.getElem?_modify]
  split
  · rw [Option.map_map]
    rfl
  · rfl

theorem Distinct.snoc {keys : List ObjectId} (distinct : store.Distinct keys) {key : ObjectId}
    (named : store.text? key = some text) (new : ∀ known ∈ keys, store.text? known ≠ some text) :
    store.Distinct (keys ++ [key]) := by
  constructor
  · exact List.forall_mem_append.mpr
      ⟨distinct.1, List.forall_mem_singleton.mpr ⟨text, named⟩⟩
  · rw [List.map_append]
    apply List.nodup_append.mpr
    refine ⟨distinct.2, List.pairwise_singleton _ _, ?_⟩
    intro known among last member same
    obtain ⟨other, inside, rfl⟩ := List.mem_map.mp among
    rw [List.map_singleton, List.mem_singleton, named] at member
    exact new other inside (same.trans member)

theorem distinct_setEntry (keys : ∀ id, store.Distinct (store.keys id)) {id : DictId}
    {key : ObjectId} (named : store.text? key = some text) (value : Slot) (other : DictId) :
    store.Distinct ((store.setEntry id text key value).keys other) := by
  unfold setEntry
  split
  next place found =>
    refine Heap.forall_read_modify
      (fun _ (entries : Array (ObjectId × Slot)) => store.Distinct (entries.toList.map Prod.fst))
      (fun address => keys ⟨address⟩) ?_ other.index
    rw [map_fst_modify]
    exact keys id
  next absent =>
    refine Heap.forall_read_modify
      (fun _ (entries : Array (ObjectId × Slot)) => store.Distinct (entries.toList.map Prod.fst))
      (fun address => keys ⟨address⟩) ?_ other.index
    rw [Array.toList_push, List.map_append]
    apply (keys id).snoc named
    intro known among same
    obtain ⟨entry, member, rfl⟩ := List.mem_map.mp among
    have differs := Array.findIdx?_eq_none_iff.mp absent entry (Array.mem_toList_iff.mp member)
    rw [same] at differs
    simp at differs

theorem distinct_of_deed (keys : ∀ id, before.Distinct (before.keys id))
    (deed : Deed slips before after) (id : DictId) : before.Distinct (after.keys id) := by
  cases deed with
  | make sane => exact keys id
  | copy value same => exact keys id
  | claim kept => exact keys id
  | reckon whole counted => exact keys id
  | addList fit => exact keys id
  | changeList fit => exact keys id
  | addDict distinct =>
      exact Heap.forall_read_push
        (fun _ (entries : Array (ObjectId × Slot)) => before.Distinct (entries.toList.map Prod.fst))
        (fun address => keys ⟨address⟩) distinct id.index
  | setEntry named => exact distinct_setEntry keys named _ id
  | aside objects lists dicts =>
      unfold Store.keys entries
      rw [dicts]
      exact keys id

theorem dicts_le_of_deed (deed : Deed slips before after) :
    before.dicts.size ≤ after.dicts.size := by
  cases deed with
  | addDict distinct =>
      have grown := before.dicts.size_push
      exact Nat.le_of_lt (Nat.lt_of_lt_of_eq (Nat.lt_succ_self _) (grown _).symm)
  | @setEntry id text key value named =>
      have same : (before.setEntry id text key value).dicts.size = before.dicts.size := by
        unfold setEntry
        split <;> exact before.dicts.size_modify _ _
      exact Nat.le_of_eq same.symm
  | aside objects lists dicts => exact Nat.le_of_eq (congrArg Heap.size dicts).symm
  | _ => exact Nat.le_refl _

theorem Sound.deed (sound : before.Sound) (deed : Deed slips before after) : after.Sound where
  elements := by
    refine elements_of_deed deed ?_ ?_
    · intro id slot among
      rcases sound.elements id slot among with ⟨value, same, known⟩ | bare
      · exact .inl ⟨value, same, known.deed deed⟩
      · exact .inr bare
    · intro slot fits
      rcases fits.sound sound with ⟨value, same, known⟩ | bare
      · exact .inl ⟨value, same, known.deed deed⟩
      · exact .inr bare
  null := sound.null.deed deed
  bodies := by
    refine payloads_of_deed (fun payload => ∀ closure, payload = .function closure →
      closure.body.Tidy) deed sound.bodies ?_ ?_
    · intro payload sane closure same
      rw [same] at sane
      exact sane
    · intro n closure same
      cases same
  keys id := (distinct_of_deed sound.keys deed id).of_texts fun _ _ known =>
    text?_of_deeds known (Deeds.single deed)
  dicts id dict same := by
    have old : dict.index < before.dicts.size := by
      refine payloads_of_deed (fun payload => ∀ dict : DictId, payload = .dict dict →
        dict.index < before.dicts.size) deed sound.dicts ?_ ?_ id dict same
      · intro payload sane dict same
        rw [same] at sane
        exact sane
      · intro n dict same
        cases same
    exact Nat.lt_of_lt_of_le old (dicts_le_of_deed deed)

theorem Proper.deed (proper : before.Proper) (deed : Deed False before after) : after.Proper where
  elements := by
    refine elements_of_deed deed ?_ ?_
    · intro id slot among
      obtain ⟨value, same, known⟩ := proper.elements id slot among
      exact ⟨value, same, known.deed deed⟩
    · intro slot fits
      obtain ⟨value, same, known⟩ := fits.proper proper
      exact ⟨value, same, known.deed deed⟩
  numbers := by
    refine payloads_of_deed (fun payload => ∀ held, payload = .number held →
      held.isText = false) deed proper.numbers ?_ ?_
    · intro payload sane held same
      rw [same] at sane
      apply Bool.eq_false_iff.mpr
      intro isText
      rcases sane isText with slipped | ⟨id, other, known, otherText⟩
      · exact slipped
      · rw [proper.numbers id other known] at otherText
        cases otherText
    · intro n held same
      cases same
      rfl

theorem Sound.deeds (sound : before.Sound) (done : Deeds slips before after) : after.Sound :=
  done.induction Sound (fun deed held => held.deed deed) sound

theorem Proper.deeds (proper : before.Proper) (done : Deeds False before after) : after.Proper :=
  done.induction Proper (fun deed held => held.deed deed) proper

end Store

end Lingo
