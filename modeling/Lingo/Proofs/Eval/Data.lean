/-
Data on the machine.

An object holds data if its parts do.  What it prints is then the text of the data, which does not
depend on where the parts are; and a script that consists of this text makes an object that holds
the same data.
-/

import Lingo.Proofs.Eval.Deeds
import Lingo.Proofs.Eval.Dictionary
import Lingo.Proofs.Eval.Formula
import Lingo.Proofs.Grammar.Data

namespace Lingo

attribute [local instance (high)] instPowNat

variable {depth : Nat}

namespace Store

/-! ### Objects that hold data -/

/-- An object holds data: it is the number or the text, or a list or a dictionary whose elements or
entries hold the parts, in the same order. -/
inductive Holds (store : Store) : ObjectId → Data → Prop where
  | int {id : ObjectId} {value : Int}
      (known : (store.object id).payload = .number (.int value)) : Holds store id (.int value)
  | text {id : ObjectId} {value : String} (known : (store.object id).payload = .text value) :
      Holds store id (.text value)
  | list {id : ObjectId} {list : ListId} {items : List (ObjectId × Data)}
      (known : (store.object id).payload = .list list) (inside : list.index < store.lists.size)
      (slots : (store.items list).toList = items.map fun item => .object item.1)
      (each : ∀ item ∈ items, Holds store item.1 item.2) :
      Holds store id (.list (items.map Prod.snd))
  | dict {id : ObjectId} {dict : DictId} {entries : List ((ObjectId × String) × ObjectId × Data)}
      (known : (store.object id).payload = .dict dict) (inside : dict.index < store.dicts.size)
      (slots : (store.entries dict).toList =
        entries.map fun entry => (entry.1.1, .object entry.2.1))
      (keys : ∀ entry ∈ entries, (store.object entry.1.1).payload = .text entry.1.2)
      (each : ∀ entry ∈ entries, Holds store entry.2.1 entry.2.2) :
      Holds store id (.dict (entries.map fun entry => (entry.1.2, entry.2.2)))

variable {before after store : Store} {id : ObjectId} {data : Data}

theorem Extends.payload (extension : before.Extends after) {payload : Payload}
    (known : (before.object id).payload = payload) (kind : payload.isKind = true) :
    (after.object id).payload = payload := by
  have value : before.IsValue id := by
    unfold IsValue
    rw [known]
    exact kind
  rw [extension.keeps id value.inside, known]

theorem Holds.extended (holds : before.Holds id data) (extension : before.Extends after) :
    after.Holds id data := by
  induction holds with
  | int known => exact .int (extension.payload known rfl)
  | text known => exact .text (extension.payload known rfl)
  | list known inside slots each ih =>
      refine .list (extension.payload known rfl) (Nat.lt_of_lt_of_le inside extension.lists) ?_ ih
      rw [extension.keepsLists _ inside, slots]
  | dict known inside slots keys each ih =>
      refine .dict (extension.payload known rfl) (Nat.lt_of_lt_of_le inside extension.dicts) ?_
        (fun entry member => extension.payload (keys entry member) rfl) ih
      rw [extension.keepsDicts _ inside, slots]

theorem map_eq_of_map_eq {α β γ : Type} {view : α → β} {other : α → γ} {left right : List α}
    (same : left.map view = right.map view)
    (decides : ∀ a ∈ left, ∀ b ∈ right, view a = view b → other a = other b) :
    left.map other = right.map other := by
  induction left generalizing right with
  | nil => rw [List.map_eq_nil_iff.mp same.symm]
  | cons a left ih =>
      obtain ⟨b, others, rfl, first, rest⟩ := List.map_eq_cons_iff.mp same.symm
      have here := decides a List.mem_cons_self b List.mem_cons_self first.symm
      have there := ih rest.symm fun c member d among =>
        decides c (List.mem_cons_of_mem a member) d (List.mem_cons_of_mem b among)
      rw [List.map_cons, List.map_cons, here, there]

theorem Holds.unique {other : ObjectId} {otherData : Data} (holds : store.Holds id data)
    (otherHolds : store.Holds other otherData)
    (same : (store.object other).payload = (store.object id).payload) : otherData = data := by
  induction holds generalizing other otherData with
  | int known => cases otherHolds <;> simp_all
  | text known => cases otherHolds <;> simp_all
  | @list id list items known inside slots each ih =>
      rw [known] at same
      cases otherHolds with
      | @list _ _ others otherKnown otherInside otherSlots otherEach =>
          rw [otherKnown] at same
          cases same
          apply congrArg Data.list
          apply map_eq_of_map_eq (otherSlots.symm.trans slots)
          intro item member piece among alike
          have sameId : item.1 = piece.1 := Slot.object.inj alike
          exact ih piece among (otherEach item member) (by rw [sameId])
      | _ => simp_all
  | @dict id dict entries known inside slots keys each ih =>
      rw [known] at same
      cases otherHolds with
      | @dict _ _ others otherKnown otherInside otherSlots otherKeys otherEach =>
          rw [otherKnown] at same
          cases same
          apply congrArg Data.dict
          apply map_eq_of_map_eq (otherSlots.symm.trans slots)
          intro entry member piece among alike
          obtain ⟨sameKey, sameSlot⟩ := Prod.mk.inj alike
          have sameValue : entry.2.1 = piece.2.1 := Slot.object.inj sameSlot
          have keyText := otherKeys entry member
          rw [sameKey, keys piece among] at keyText
          rw [Payload.text.inj keyText,
            ih piece among (otherEach entry member) (by rw [sameValue])]
      | _ => simp_all

end Store

/-! ### Printing -/

theorem mapM_map_ok {α β γ ε : Type} {f : β → Except ε γ} {view : α → β} {g : α → γ}
    {list : List α} (each : ∀ a ∈ list, f (view a) = .ok (g a)) :
    (list.map view).mapM f = .ok (list.map g) := by
  induction list with
  | nil => rfl
  | cons a list ih =>
      rw [List.map_cons, List.mapM_cons, each a List.mem_cons_self,
        ih fun b member => each b (List.mem_cons_of_mem a member)]
      rfl

namespace Store

variable {store : Store} {id : ObjectId} {data : Data} {within : List DictId}

/-- The dictionaries around an object hold higher data than it does. -/
def Surrounds (store : Store) (within : List DictId) (height : Nat) : Prop :=
  ∀ dict ∈ within, ∃ other outer, (store.object other).payload = .dict dict ∧
    store.Holds other outer ∧ height < outer.height

theorem Surrounds.lower {height lower : Nat} (surrounds : store.Surrounds within height)
    (less : lower ≤ height) : store.Surrounds within lower := by
  intro dict member
  obtain ⟨other, outer, known, holds, higher⟩ := surrounds dict member
  exact ⟨other, outer, known, holds, Nat.lt_of_le_of_lt less higher⟩

theorem Surrounds.enter {dict : DictId} {lower : Nat}
    (surrounds : store.Surrounds within data.height)
    (known : (store.object id).payload = .dict dict) (holds : store.Holds id data)
    (less : lower < data.height) : store.Surrounds (dict :: within) lower := by
  intro other member
  rcases List.mem_cons.mp member with rfl | outer
  · exact ⟨id, data, known, holds, less⟩
  · exact surrounds.lower (Nat.le_of_lt less) other outer

theorem object_int {value : Int} (known : (store.object id).payload = .number (.int value))
    (short : value.natAbs < 10 ^ Numeral.digitLimit) (depth : Nat) (quotes : Bool)
    (within : List DictId) :
    Display.object store (depth + 1) quotes within id = .ok (toString value) := by
  have text : Scalar.display (.int value) = .ok (toString value) := by
    rw [Scalar.display, Scalar.intText, if_neg (Nat.not_le.mpr short)]
  rw [Display.object, known]
  exact text

theorem object_quoted {value : String} (known : (store.object id).payload = .text value)
    (depth : Nat) (within : List DictId) :
    Display.object store (depth + 1) true within id = .ok (Data.quoted value) := by
  rw [Display.object, known]
  rfl

/-- No dictionary is met inside itself: it would hold data that is higher than itself. -/
theorem Holds.outside {dict : DictId} (holds : store.Holds id data)
    (known : (store.object id).payload = .dict dict)
    (surrounds : store.Surrounds within data.height) : dict ∉ within := by
  intro member
  obtain ⟨other, outer, otherKnown, otherHolds, higher⟩ := surrounds dict member
  rw [holds.unique otherHolds (otherKnown.trans known.symm)] at higher
  exact Nat.lt_irrefl _ higher

theorem Holds.displayed (holds : store.Holds id data) (readable : data.Readable)
    (deep : data.height ≤ depth) {quotes : Bool} (shown : data.isText = true → quotes = true)
    (surrounds : store.Surrounds within data.height) :
    Display.object store depth quotes within id = .ok data.printed := by
  induction holds generalizing depth quotes within with
  | @int id value known =>
      obtain ⟨below, rfl⟩ := Nat.exists_eq_add_of_le' (Nat.le_trans (Data.height_pos _) deep)
      cases readable with
      | int short => exact object_int known short below quotes within
  | @text id value known =>
      obtain ⟨below, rfl⟩ := Nat.exists_eq_add_of_le' (Nat.le_trans (Data.height_pos _) deep)
      rw [shown rfl]
      exact object_quoted known below within
  | @list id list items known inside slots each ih =>
      obtain ⟨below, rfl⟩ := Nat.exists_eq_add_of_le' (Nat.le_trans (Data.height_pos _) deep)
      cases readable with
      | list eachReadable noText =>
          have parts : (store.items list).toList.mapM
              (Display.slotText (Display.object store below false within)) =
              .ok (items.map fun item => item.2.printed) := by
            rw [slots]
            apply mapM_map_ok
            intro item member
            have among : item.2 ∈ items.map Prod.snd := List.mem_map_of_mem member
            have lower := Data.height_lt_list among
            have bare := noText item.2 among
            exact ih item member (eachReadable item.2 among) (by omega)
              (fun isText => absurd isText (by rw [bare]; decide))
              (surrounds.lower (Nat.le_of_lt lower))
          rw [Display.object, known]
          dsimp only
          rw [parts, Data.printed_list, List.map_map]
          rfl
  | @dict id dict entries known inside slots keys each ih =>
      obtain ⟨below, rfl⟩ := Nat.exists_eq_add_of_le' (Nat.le_trans (Data.height_pos _) deep)
      have holds : store.Holds id _ := .dict known inside slots keys each
      cases readable with
      | dict plain distinct eachReadable =>
          have parts : (store.entries dict).toList.mapM
              (Display.entryText (Display.object store below true (dict :: within))) =
              .ok (entries.map fun entry => Data.entryText (entry.1.2, entry.2.2.printed)) := by
            rw [slots]
            apply mapM_map_ok
            intro entry member
            have among := List.mem_map_of_mem (f := fun entry => (entry.1.2, entry.2.2)) member
            have lower : entry.2.2.height < Data.height _ := Data.height_lt_dict among
            have positive := entry.2.2.height_pos
            -- Something is in the dictionary, so there is depth left for the key.
            obtain ⟨rest, rfl⟩ : ∃ rest, below = rest + 1 := Nat.exists_eq_add_of_le' (by omega)
            have value : Display.object store (rest + 1) true (dict :: within) entry.2.1 =
                .ok entry.2.2.printed :=
              ih entry member (eachReadable _ among) (by omega) (fun _ => rfl)
                (surrounds.enter known holds lower)
            rw [Display.entryText, object_quoted (keys entry member) rest (dict :: within),
              Display.slotText, value]
            rfl
          rw [Display.object, known]
          dsimp only
          rw [if_neg (holds.outside known surrounds), parts, Data.printed_dict, List.map_map]
          rfl

end Store

/-! ### Making data -/

namespace Data

variable {limits : Limits} {self : Evaluator} {context : Context}

def Makes (evaluation : Eval ObjectId) (before : Machine) (data : Data) : Prop :=
  ∃ id after, evaluation.Ends before (.ok id) after ∧ before.store.Extends after.store ∧
    after.store.Holds id data

theorem makes_of_answers {evaluation : Eval ObjectId} {before : Machine} {value : Int}
    (answers : Formula.Answers evaluation context before (.ok value)) :
    Makes evaluation before (.int value) := by
  obtain ⟨id, after, ends, yields⟩ := answers
  obtain ⟨span, known⟩ := yields.holds
  exact ⟨id, after, ends, yields.extension.extension, .int (congrArg Object.payload known)⟩

theorem makes_int {value : Int} (short : value.natAbs < 10 ^ Numeral.digitLimit) {script : Script}
    (written : script.bare = (int value).tree) (deep : 1 < depth) (context : Context)
    (before : Machine) :
    Makes (Evaluator.atDepth limits depth script context) before (.int value) := by
  cases value with
  | ofNat n =>
      exact makes_of_answers
        ((Formula.literal n short).answers_meaning written (Nat.le_of_lt deep) context before)
  | negSucc n =>
      exact makes_of_answers
        ((Formula.unary .minus (.literal (n + 1) short)).answers_meaning written deep context
          before)

theorem makes_text {value : String} {script : Script} (written : script.bare = (text value).tree)
    (deep : 0 < depth) (context : Context) (before : Machine) :
    Makes (Evaluator.atDepth limits depth script context) before (.text value) := by
  obtain ⟨below, rfl⟩ := Nat.exists_eq_add_of_le' deep
  cases script with
  | string span known =>
      cases written
      refine ⟨_, _, Eval.Ends.lift (Activity.ends_addObject _ before),
        before.store.extends_addObject _, .text ?_⟩
      exact congrArg Object.payload (before.store.object_addObject _)
  | _ => cases written

section

variable {scripts : List Script} {items : List Data}
  (written : scripts.map Tree.bare = items.map tree)
  (each : ∀ item ∈ items, ∀ {script : Script}, script.bare = item.tree →
    ∀ before, Makes (self script context) before item)

include written each

theorem makes_items (before : Machine) :
    ∃ (pieces : List (ObjectId × Data)) (after : Machine),
      (scripts.mapM fun script => self script context).Ends before (.ok (pieces.map Prod.fst))
        after ∧
      before.store.Extends after.store ∧ pieces.map Prod.snd = items ∧
      ∀ piece ∈ pieces, after.store.Holds piece.1 piece.2 := by
  induction items generalizing scripts before with
  | nil =>
      rw [List.map_eq_nil_iff.mp written]
      exact ⟨[], before, rfl, .refl _, rfl, nofun⟩
  | cons item items ih =>
      obtain ⟨script, scripts, rfl, same, others⟩ := List.map_eq_cons_iff.mp written
      obtain ⟨id, middle, ends, extension, holds⟩ := each item List.mem_cons_self same before
      obtain ⟨pieces, after, otherEnds, otherExtension, rfl, all⟩ :=
        ih others (fun other member => each other (List.mem_cons_of_mem item member)) middle
      refine ⟨(id, item) :: pieces, after, ?_, extension.trans otherExtension, rfl, ?_⟩
      · rw [List.mapM_cons]
        exact ends.bind (otherEnds.bind rfl)
      · exact List.forall_mem_cons.mpr ⟨holds.extended otherExtension, all⟩

theorem makes_list (span : Span) (before : Machine) :
    Makes (Evaluator.listValue self span scripts context) before (.list items) := by
  obtain ⟨pieces, middle, ends, extension, rfl, all⟩ := makes_items written each before
  have grown := middle.store.extends_withList ((pieces.map Prod.fst).map .object).toArray span
    context
  refine ⟨_, _, Evaluator.ends_listValue ends span, extension.trans grown, ?_⟩
  apply Store.Holds.list (middle.store.payload_withList ..)
  · exact middle.store.lists.lt_size_push _
  · rw [Store.items_withList, List.map_map]
    rfl
  · exact fun piece member => (all piece member).extended grown

end

section

variable {written : List ((Span × String) × Script)} {entries : List (String × Data)}
  (same : (written.map fun entry => (((), entry.1.2), entry.2.bare)) =
    entries.map fun entry => (((), entry.1), entry.2.tree))
  (each : ∀ entry ∈ entries, ∀ {script : Script}, script.bare = entry.2.tree →
    ∀ before, Makes (self script context) before entry.2)

include same each

theorem makes_entries (before : Machine) :
    ∃ (pieces : List ((ObjectId × String) × ObjectId × Data)) (after : Machine),
      Evaluator.Fills self context written before
        (pieces.map fun piece => (piece.1.1, .ok piece.2.1)) after ∧
      before.store.Extends after.store ∧
      (pieces.map fun piece => (piece.1.2, piece.2.2)) = entries ∧
      (∀ piece ∈ pieces, (after.store.object piece.1.1).payload = .text piece.1.2) ∧
      ∀ piece ∈ pieces, after.store.Holds piece.2.1 piece.2.2 := by
  induction entries generalizing written before with
  | nil =>
      rw [List.map_eq_nil_iff.mp same]
      exact ⟨[], before, .nil _, .refl _, rfl, nofun, nofun⟩
  | cons entry entries ih =>
      obtain ⟨⟨place, value⟩, written, rfl, alike, others⟩ := List.map_eq_cons_iff.mp same
      obtain ⟨samePlace, sameTree⟩ := Prod.mk.inj alike
      have sameKey : place.2 = entry.1 := (Prod.mk.inj samePlace).2
      obtain ⟨id, middle, ends, extension, holds⟩ := each entry List.mem_cons_self sameTree before
      -- The key is made once its value is there.
      let key := Evaluator.claimed (.text place.2) place.1 context
      have keyed : middle.store.Extends (middle.withObject key).store :=
        middle.store.extends_addObject key
      have made : ((middle.withObject key).store.object ⟨middle.store.objects.size⟩).payload =
          .text entry.1 := by
        rw [← sameKey]
        exact congrArg Object.payload (middle.store.object_addObject key)
      obtain ⟨pieces, after, fills, otherExtension, rfl, keys, all⟩ :=
        ih others (fun other member => each other (List.mem_cons_of_mem entry member))
          (middle.withObject key)
      refine ⟨((⟨middle.store.objects.size⟩, entry.1), id, entry.2) :: pieces, after,
        .cons ends fills, (extension.trans keyed).trans otherExtension, rfl, ?_, ?_⟩
      · exact List.forall_mem_cons.mpr ⟨otherExtension.payload made rfl, keys⟩
      · exact List.forall_mem_cons.mpr ⟨(holds.extended keyed).extended otherExtension, all⟩

theorem makes_dict (span : Span) (before : Machine) :
    Makes (Evaluator.dictValue self span written context) before (.dict entries) := by
  obtain ⟨pieces, middle, fills, extension, rfl, keys, all⟩ := makes_entries same each before
  have ends : (Evaluator.dictValue self span written context).Ends before _ _ :=
    Evaluator.ends_dictValue_iff.mpr ⟨_, middle, fills, rfl, rfl⟩
  have grown : middle.store.Extends (Evaluator.withDictionary middle
      (pieces.map fun piece => (piece.1.1, .ok piece.2.1)) span context).store :=
    (middle.store.extends_addDict _).trans (Store.extends_addObject _ _)
  refine ⟨_, _, ends, extension.trans grown, ?_⟩
  apply Store.Holds.dict (Evaluator.payload_withDictionary ..)
  · exact middle.store.dicts.lt_size_push _
  · rw [Evaluator.entries_withDictionary, List.map_map]
    rfl
  · exact fun piece member => grown.payload (keys piece member) rfl
  · exact fun piece member => (all piece member).extended grown

end

/-- An evaluator that may go deeper than data is nested makes the data from its tree. -/
theorem Readable.makes {data : Data} (readable : data.Readable) {script : Script}
    (written : script.bare = data.tree) (deep : data.height < depth) (context : Context)
    (before : Machine) : Makes (Evaluator.atDepth limits depth script context) before data := by
  induction readable generalizing script depth before with
  | int short => exact makes_int short written deep context before
  | text plain => exact makes_text written (Nat.lt_of_succ_lt deep) context before
  | @list items each noText ih =>
      obtain ⟨below, rfl⟩ := Nat.exists_eq_add_of_le' (Nat.lt_of_le_of_lt (Nat.zero_le _) deep)
      rw [tree_list] at written
      cases script with
      | list span scripts =>
          rw [Tree.bare, Tree.bareAll_eq_map] at written
          injection written with _ same
          apply makes_list same
          intro item member script known before
          have lower := height_lt_list member
          exact ih item member known (by omega) before
      | _ => cases written
  | @dict entries keys distinct each ih =>
      obtain ⟨below, rfl⟩ := Nat.exists_eq_add_of_le' (Nat.lt_of_le_of_lt (Nat.zero_le _) deep)
      rw [tree_dict] at written
      cases script with
      | dict span places =>
          rw [Tree.bare, Tree.bareEntries_eq_map] at written
          injection written with _ same
          apply makes_dict same
          intro entry member script known before
          have lower := height_lt_dict member
          exact ih entry member known (by omega) before
      | _ => cases written

/-! ### Reading back what was printed -/

theorem isFunction_of_holds {store : Store} {id : ObjectId} {data : Data}
    (holds : store.Holds id data) : Library.isFunction (store.object id).payload = false := by
  cases holds with
  | int known =>
      rw [known]
      rfl
  | text known =>
      rw [known]
      rfl
  | list known =>
      rw [known]
      rfl
  | dict known =>
      rw [known]
      rfl

theorem ends_toText {machine : Machine} {id : ObjectId} {data : Data} {text : String}
    (holds : machine.store.Holds id data) (shown : Display.text machine.store id = .ok text)
    (call : Invocation) :
    (Library.answer call .toStr [id]).Ends machine (.ok (.object ⟨machine.store.objects.size⟩))
      (machine.withObject { payload := .text text }) := by
  change (Library.toText call id).Ends machine _ _
  unfold Library.toText
  apply Eval.Ends.bind (Eval.Ends.lift (Activity.ends_object id machine))
  rw [isFunction_of_holds holds]
  apply Eval.Ends.bind (Eval.Ends.lift (Activity.ends_store machine))
  apply Eval.Ends.bind (Eval.ends_settle shown machine)
  rfl

theorem Readable.run_printed {data : Data} (readable : data.Readable)
    (shown : data.isText = false) (limits : Limits) (deep : data.height + 1 < limits.depth)
    (name : String) (before : Machine) :
    ∃ list after,
      (Machine.run limits { name, text := data.printed } "").Ends before (.ok (some list)) after ∧
        after.store.Holds list (.list [data]) := by
  obtain ⟨tokens, tree, stop, lexed, parsed, written⟩ := readable.read name
  have listed : (Data.list [data]).Readable :=
    .list (List.forall_mem_singleton.mpr readable) (List.forall_mem_singleton.mpr shown)
  have fits : (Data.list [data]).height < limits.depth := by
    rw [height_list, List.map_singleton, List.foldr_cons, List.foldr_nil, Nat.max_zero]
    exact deep
  obtain ⟨id, after, ends, _, holds⟩ :=
    listed.makes (written.trans (tree_list [data]).symm) fits (Evaluator.outermost before) before
  exact ⟨id, after, Evaluator.ends_runSource lexed parsed ends, holds⟩

/-- Data can be read back.  Whatever the machine, an object that holds readable data is printed
as the text of the data, and `to_str` gives this text; run as a script, on any machine, the text
yields a list of one value, which holds the same data. -/
theorem printed_data_reads_back {machine : Machine} {id : ObjectId} {data : Data}
    (holds : machine.store.Holds id data) (readable : data.Readable)
    (shown : data.isText = false) :
    (∀ depth, data.height ≤ depth →
      Display.object machine.store depth false [] id = .ok data.printed) ∧
    (data.height ≤ Display.depthLimit → ∀ call, ∃ text after,
      (Library.answer call .toStr [id]).Ends machine (.ok (.object text)) after ∧
        (after.store.object text).payload = .text data.printed) ∧
    ∀ limits, data.height + 1 < limits.depth → ∀ name before, ∃ list after,
      (Machine.run limits { name, text := data.printed } "").Ends before (.ok (some list)) after ∧
        after.store.Holds list (.list [data]) := by
  have printed : ∀ depth, data.height ≤ depth →
      Display.object machine.store depth false [] id = .ok data.printed := by
    intro depth deep
    exact holds.displayed readable deep (fun isText => absurd isText (by rw [shown]; decide)) nofun
  refine ⟨printed, ?_, ?_⟩
  · intro deep call
    exact ⟨_, _, ends_toText holds (printed _ deep) call,
      congrArg Object.payload (machine.store.object_addObject _)⟩
  · intro limits deep name before
    exact readable.run_printed shown limits deep name before

def nested : Data :=
  .dict [("a", .list [.int (-7), .dict []]), ("b", .text "x, y")]

theorem readable_nested : nested.Readable := by
  have seven : (-7 : Int).natAbs < 10 ^ Numeral.digitLimit :=
    Nat.lt_of_lt_of_le (by decide : 7 < 10) (Nat.le_self_pow (by decide) 10)
  have inner : (list [.int (-7), .dict []]).Readable := by
    refine .list ?_ (by simp [isText])
    simp only [List.forall_mem_cons]
    exact ⟨.int seven, .dict nofun (by simp) nofun, nofun⟩
  have plain : IsPlain "a" ∧ IsPlain "b" ∧ IsPlain "x, y" := by
    simp [IsPlain]
  refine .dict ?_ (by simp) ?_
  · simp [plain]
  · simp only [List.forall_mem_cons]
    exact ⟨inner, .text plain.2.2, nofun⟩

def holder : Machine :=
  { store :=
      { objects := ⟨#[
          { payload := .dict ⟨0⟩ }, { payload := .text "a" }, { payload := .list ⟨0⟩ },
          { payload := .number (.int (-7)) }, { payload := .dict ⟨1⟩ }, { payload := .text "b" },
          { payload := .text "x, y" }]⟩
        lists := ⟨#[#[.object ⟨3⟩, .object ⟨4⟩]]⟩
        dicts := ⟨#[#[(⟨1⟩, .object ⟨2⟩), (⟨5⟩, .object ⟨6⟩)], #[]]⟩ }
    globals := ⟨0⟩ }

theorem holds_nested : holder.store.Holds ⟨0⟩ nested := by
  have empty : holder.store.Holds ⟨4⟩ (.dict []) :=
    @Store.Holds.dict _ _ ⟨1⟩ [] rfl (by decide) rfl nofun nofun
  have inner : holder.store.Holds ⟨2⟩ (.list [.int (-7), .dict []]) := by
    refine @Store.Holds.list _ _ ⟨0⟩ [(⟨3⟩, .int (-7)), (⟨4⟩, .dict [])] rfl (by decide) rfl ?_
    simp only [List.forall_mem_cons]
    exact ⟨.int rfl, empty, nofun⟩
  refine @Store.Holds.dict _ _ ⟨0⟩ [((⟨1⟩, "a"), ⟨2⟩, .list [.int (-7), .dict []]),
    ((⟨5⟩, "b"), ⟨6⟩, .text "x, y")] rfl (by decide) rfl ?_ ?_
  · simp only [List.forall_mem_cons]
    exact ⟨rfl, rfl, nofun⟩
  · simp only [List.forall_mem_cons]
    exact ⟨inner, .text rfl, nofun⟩

theorem nested_reads_back :
    nested.printed = "\x7b\"a\": [-7, \x7b\x7d], \"b\": \"x, y\"\x7d" ∧
    Display.text holder.store ⟨0⟩ = .ok nested.printed ∧
    ∃ list after,
      (Machine.run .standard { name := "<stdin>", text := nested.printed } "").Ends (.initial {} [])
          (.ok (some list)) after ∧
        after.store.Holds list (.list [nested]) := by
  obtain ⟨printed, _, again⟩ := printed_data_reads_back holds_nested readable_nested rfl
  exact ⟨by decide, printed _ (by decide), again .standard (by decide) "<stdin>" _⟩

end Data

end Lingo
