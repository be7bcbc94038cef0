/-
The keys of dictionaries.

No dictionary that running texts can lead to has two keys with the same text.  A literal keeps each
key once, as it is first written, with the value that is written last; setting a key gives an equal
one its value, and else adds it.
-/

import Lingo.Proofs.Eval.Reached
import Lingo.Proofs.Token.Places

namespace Lingo

/-! ### Literals -/

namespace Grammar

open Rule

def keysOf (entries : List ((Span × String) × Script)) : List String :=
  entries.map (·.1.2)

theorem keysOf_addEntry (entries : List ((Span × String) × Script))
    (entry : (Span × String) × Script) :
    keysOf (addEntry entries entry) =
      if entry.1.2 ∈ keysOf entries then keysOf entries else keysOf entries ++ [entry.1.2] := by
  have known : entries.any (·.1.2 == entry.1.2) = true ↔ entry.1.2 ∈ keysOf entries := by
    simp [keysOf]
  unfold addEntry
  by_cases present : entry.1.2 ∈ keysOf entries
  · rw [if_pos (known.mpr present), if_pos present]
    unfold keysOf
    rw [List.map_map]
    apply List.map_congr_left
    intro old _
    dsimp only [Function.comp]
    split
    · rfl
    · rfl
  · rw [if_neg (mt known.mp present), if_neg present]
    simp [keysOf]

/-- Of the entries that are written each key is kept once: in the order in which keys first occur,
as it is first written, with the value that is written last. -/
structure Kept (written kept : List ((Span × String) × Script)) : Prop where
  keys : keysOf kept = (keysOf written).eraseDups
  first : ∀ entry ∈ kept, ∃ value,
    written.find? (·.1.2 == entry.1.2) = some (entry.1, value)
  last : ∀ entry ∈ kept, ∃ key,
    written.reverse.find? (·.1.2 == entry.1.2) = some (key, entry.2)

variable {written kept : List ((Span × String) × Script)} {entry : (Span × String) × Script}

theorem eraseDups_snoc (keys : List String) (key : String) :
    (keys ++ [key]).eraseDups =
      if key ∈ keys then keys.eraseDups else keys.eraseDups ++ [key] := by
  rw [List.eraseDups_append]
  by_cases known : key ∈ keys
  · have nothing : [key].removeAll keys = [] := by simpa [List.removeAll] using known
    rw [if_pos known, nothing, List.eraseDups_nil, List.append_nil]
  · have itself : [key].removeAll keys = [key] := by simpa [List.removeAll] using known
    rw [if_neg known, itself]
    simp [List.eraseDups_cons]

theorem find?_reverse_snoc (entry : (Span × String) × Script)
    (test : (Span × String) × Script → Bool) :
    (written ++ [entry]).reverse.find? test =
      if test entry = true then some entry else written.reverse.find? test := by
  rw [List.reverse_append, List.reverse_singleton, List.singleton_append, List.find?_cons]
  split
  next holds => rw [if_pos holds]
  next fails => rw [if_neg (by rw [fails]; exact Bool.false_ne_true)]

theorem mem_addEntry {known : (Span × String) × Script} (among : known ∈ addEntry kept entry) :
    (∃ old ∈ kept, known.1 = old.1 ∧
      (old.1.2 = entry.1.2 ∧ known.2 = entry.2 ∨ old.1.2 ≠ entry.1.2 ∧ known.2 = old.2)) ∨
      entry.1.2 ∉ keysOf kept ∧ known = entry := by
  unfold addEntry at among
  split at among
  · left
    obtain ⟨old, member, rfl⟩ := List.mem_map.mp among
    by_cases same : old.1.2 = entry.1.2
    · exact ⟨old, member, by simp [same], .inl ⟨same, by simp [same]⟩⟩
    · exact ⟨old, member, by simp [same], .inr ⟨same, by simp [same]⟩⟩
  next absent =>
    have fresh : entry.1.2 ∉ keysOf kept := by simpa [keysOf] using absent
    rcases List.mem_append.mp among with member | last
    · have differs : known.1.2 ≠ entry.1.2 :=
        fun same => fresh (same ▸ List.mem_map_of_mem member)
      exact .inl ⟨known, member, rfl, .inr ⟨differs, rfl⟩⟩
    · exact .inr ⟨fresh, List.mem_singleton.mp last⟩

theorem Kept.snoc (held : Kept written kept) (entry : (Span × String) × Script) :
    Kept (written ++ [entry]) (addEntry kept entry) where
  keys := by
    -- A key is new among those kept just if it is new among those written.
    have both : keysOf (written ++ [entry]) = keysOf written ++ [entry.1.2] := List.map_append
    rw [keysOf_addEntry, both, eraseDups_snoc, held.keys]
    simp only [List.mem_eraseDups]
  first := by
    intro known among
    rcases mem_addEntry among with ⟨old, member, same, _⟩ | ⟨fresh, rfl⟩
    · obtain ⟨value, found⟩ := held.first old member
      rw [same]
      refine ⟨value, ?_⟩
      rw [List.find?_append, found]
      rfl
    · have absent : written.find? (·.1.2 == known.1.2) = none := by
        apply List.find?_eq_none.mpr
        intro other member same
        rw [held.keys] at fresh
        exact fresh (List.mem_eraseDups.mpr (eq_of_beq same ▸ List.mem_map_of_mem member))
      refine ⟨known.2, ?_⟩
      rw [List.find?_append, absent]
      simp
  last := by
    intro known among
    rw [find?_reverse_snoc]
    rcases mem_addEntry among with ⟨old, member, same, ⟨equal, new⟩ | ⟨differs, kept⟩⟩ | ⟨_, rfl⟩
    · rw [same, equal, new]
      exact ⟨entry.1, if_pos (beq_self_eq_true _)⟩
    · have apart : (entry.1.2 == old.1.2) = false := beq_false_of_ne (Ne.symm differs)
      rw [same, kept, apart]
      exact held.last old member
    · exact ⟨known.1, if_pos (beq_self_eq_true _)⟩

theorem kept_foldl (others : List ((Span × String) × Script)) :
    ∀ {written kept : List ((Span × String) × Script)}, Kept written kept →
      Kept (written ++ others) (others.foldl addEntry kept) := by
  induction others with
  | nil =>
      intro written kept held
      rw [List.append_nil]
      exact held
  | cons entry others ih =>
      intro written kept held
      have further := ih (held.snoc entry)
      rw [List.append_assoc, List.singleton_append] at further
      exact further

theorem kept_written (written : List ((Span × String) × Script)) :
    Kept written (written.foldl addEntry []) := by
  have nothing : Kept [] [] :=
    ⟨rfl, List.forall_mem_nil _, List.forall_mem_nil _⟩
  exact kept_foldl written nothing

theorem dictLiteral_kept {source : Source} {tokens : List Placed}
    (lexed : Lexer.read source = .tokens tokens) {depth start : Nat}
    (inside : start < tokens.length) {counts : Counts} {tree : Script} {after : Reading}
    (accepted : dictLiteral (Level.of depth) tokens.toArray { cursor := start, counts } =
      .ok (.success tree, after)) :
    ∃ span written kept, tree = .dict span kept ∧
      Braced (between tokens.toArray start after.cursor) written ∧ Kept written kept := by
  obtain ⟨words, ended, once⟩ := Lexer.read_ends lexed
  have ends := endsAt_of_map ended once
  have within : start ≤ words.length := by
    have counted := congrArg List.length ended
    simp only [List.length_map, List.length_append, List.length_singleton] at counted
    omega
  have keeps := keeps_braced ends ((below_of ends depth start).later (Nat.le_succ start)) within
  obtain ⟨_, _, _, span, written, braced, rfl⟩ := keeps.balanced.reached accepted
  exact ⟨span, written, _, rfl, braced, kept_written written⟩

end Grammar

/-! ### Setting a key -/

namespace Store

/-- A key of a dictionary is set: the entry of an equal key takes the value, or else the key is
added at the end.  Nothing else changes. -/
structure SetsKey (before after : Store) (dict : DictId) (text : String) (key : ObjectId)
    (value : Slot) : Prop where
  entries :
    (∃ (place : Nat) (old : ObjectId × Slot), (before.entries dict)[place]? = some old ∧
      before.text? old.1 = some text ∧
        after.entries dict = (before.entries dict).setIfInBounds place (old.1, value)) ∨
      (∀ entry ∈ before.entries dict, before.text? entry.1 ≠ some text) ∧
        after.entries dict = (before.entries dict).push (key, value)
  others : ∀ other, other ≠ dict → after.entries other = before.entries other
  objects : after.objects = before.objects
  lists : after.lists = before.lists

variable {store : Store} {dict : DictId}

theorem entries_modifyEntries (inside : dict.index < store.dicts.size)
    (change : Array (ObjectId × Slot) → Array (ObjectId × Slot)) :
    (store.modifyEntries dict change).entries dict = change (store.entries dict) :=
  store.dicts.read_modify_same change inside

theorem entries_modifyEntries_away (change : Array (ObjectId × Slot) → Array (ObjectId × Slot))
    {other : DictId} (different : other ≠ dict) :
    (store.modifyEntries dict change).entries other = store.entries other := by
  apply store.dicts.read_modify_away change
  intro same
  apply different
  cases other
  cases dict
  exact congrArg DictId.mk same.symm

theorem modify_entry {entries : Array (ObjectId × Slot)} {place : Nat} {old : ObjectId × Slot}
    (found : entries[place]? = some old) (value : Slot) :
    (entries.modify place fun entry => (entry.1, value)) =
      entries.setIfInBounds place (old.1, value) := by
  apply Array.ext_getElem?
  intro index
  rw [Array.getElem?_modify, Array.getElem?_setIfInBounds]
  by_cases same : place = index
  · subst same
    obtain ⟨inside, _⟩ := Array.getElem?_eq_some_iff.mp found
    rw [if_pos rfl, if_pos rfl, if_pos inside, found]
    rfl
  · rw [if_neg same, if_neg same]

theorem setsKey_setEntry (inside : dict.index < store.dicts.size) (text : String) (key : ObjectId)
    (value : Slot) : store.SetsKey (store.setEntry dict text key value) dict text key value := by
  unfold setEntry
  split
  next place found =>
    obtain ⟨bound, same, _⟩ := Array.findIdx?_eq_some_iff_getElem.mp found
    have held : (store.entries dict)[place]? = some (store.entries dict)[place] :=
      Array.getElem?_eq_getElem bound
    refine ⟨.inl ⟨place, _, held, eq_of_beq same, ?_⟩, ?_, rfl, rfl⟩
    · rw [entries_modifyEntries inside, modify_entry held]
    · intro other different
      exact entries_modifyEntries_away _ different
  next absent =>
    refine ⟨.inr ⟨?_, entries_modifyEntries inside _⟩, ?_, rfl, rfl⟩
    · intro entry among same
      have differs := Array.findIdx?_eq_none_iff.mp absent entry among
      rw [same] at differs
      simp at differs
    · intro other different
      exact entries_modifyEntries_away _ different

end Store

namespace Library

open Activity

variable {before : Machine} (call : Invocation) {subject index : ObjectId} (value : ObjectId)
  {dict : DictId}

theorem ends_payload (id : ObjectId) (before : Machine) :
    (Invocation.payload id).Ends before (.ok (before.store.object id).payload) before :=
  rfl

theorem ends_text {id : ObjectId} {text : String} (named : before.store.text? id = some text)
    (ordinal : Option Nat) : (call.text ordinal id).Ends before (.ok text) before := by
  apply Eval.Ends.bind (ends_payload id before)
  rw [Store.payload_of_text? named]
  rfl

theorem ends_text_refused {id : ObjectId} (nameless : before.store.text? id = none)
    (ordinal : Option Nat) :
    (call.text ordinal id).Ends before
      (.error (.failed (Operation.fault (.argumentKind ordinal "a string") call.start call.stop
        (some call.context)))) before := by
  apply Eval.Ends.bind (ends_payload id before)
  unfold Store.text? at nameless
  cases found : (before.store.object id).payload with
  | text held =>
      rw [found] at nameless
      cases nameless
  | _ => rfl

theorem ends_set_text (known : (before.store.object subject).payload = .dict dict) {text : String}
    (named : before.store.text? index = some text) :
    (answer call .set [subject, index, value]).Ends before (.ok null)
      { before with store := before.store.setEntry dict text index (.object value) } := by
  apply Eval.Ends.bind (Eval.Ends.lift (ends_object subject before))
  rw [known]
  exact Eval.Ends.bind (ends_text call named _) rfl

end Library

/-- In every machine that is reached, however its texts ended, all keys of a dictionary are texts
and no two are equal.  A literal keeps each key once, and setting a key adds none that is there. -/
theorem dictionary_keys_are_distinct (limits : Limits) :
    (∀ machine, Machine.Reached limits (fun _ => False) machine → ∀ subject dict,
      (machine.store.object subject).payload = .dict dict → dict.index < machine.store.dicts.size ∧
        (∀ entry ∈ machine.store.entries dict, ∃ text, machine.store.text? entry.1 = some text) ∧
          ((machine.store.entries dict).toList.map fun entry =>
            machine.store.text? entry.1).Nodup) ∧
    (∀ source tokens, Lexer.read source = .tokens tokens → ∀ depth start counts tree after,
      start < tokens.length →
        Grammar.dictLiteral (Grammar.Level.of depth) tokens.toArray { cursor := start, counts } =
          .ok (.success tree, after) →
            ∃ span written kept, tree = .dict span kept ∧
              Grammar.Braced (Rule.between tokens.toArray start after.cursor) written ∧
                Grammar.Kept written kept) ∧
    ∀ call before subject index value dict, dict.index < before.store.dicts.size →
      (before.store.object subject).payload = .dict dict →
        (∀ text, before.store.text? index = some text → ∃ after,
          (Library.answer call .set [subject, index, value]).Ends before (.ok Library.null) after ∧
            before.store.SetsKey after.store dict text index (.object value)) ∧
        (before.store.text? index = none →
          (Library.answer call .set [subject, index, value]).Ends before
            (.error (.failed (Operation.fault (.argumentKind (some 1) "a string") call.start
              call.stop (some call.context)))) before) := by
  refine ⟨?_, ?_, ?_⟩
  · intro machine reached subject dict known
    have sound := reached.sound
    obtain ⟨texts, distinct⟩ := sound.keys dict
    refine ⟨sound.dicts subject dict known, ?_, ?_⟩
    · intro entry among
      exact texts entry.1 (List.mem_map_of_mem (Array.mem_toList_iff.mpr among))
    · unfold Store.keys at distinct
      rw [List.map_map] at distinct
      exact distinct
  · intro source tokens lexed depth start counts tree after inside accepted
    exact Grammar.dictLiteral_kept lexed inside accepted
  · intro call before subject index value dict inside known
    constructor
    · intro text named
      exact ⟨_, Library.ends_set_text call value known named,
        Store.setsKey_setEntry inside text index (.object value)⟩
    · intro nameless
      apply Eval.Ends.bind (Eval.Ends.lift (Activity.ends_object subject before))
      rw [known]
      exact (Library.ends_text_refused call nameless _).interrupted

def Payload.dict? : Payload → Option DictId
  | .dict found => some found
  | _ => none

theorem Payload.eq_dict {payload : Payload} {found : DictId} (known : payload.dict? = some found) :
    payload = .dict found := by
  unfold dict? at known
  split at known
  · cases known
    rfl
  · cases known

/-- The tokens of a text, with the dictionary that it begins with. -/
def Grammar.dictionary? (text : String) : Option (List Placed × Script × Reading) :=
  match Lexer.read { name := "<stdin>", text } with
  | .tokens tokens =>
      match dictLiteral (Level.of 9) tokens.toArray { cursor := 0, counts := {} } with
      | .ok (.success tree, after) => some (tokens, tree, after)
      | _ => none
  | _ => none

theorem Grammar.read_of_dictionary? {text : String} {tokens : List Placed} {tree : Script}
    {after : Reading} (found : dictionary? text = some (tokens, tree, after)) :
    Lexer.read { name := "<stdin>", text } = .tokens tokens ∧
      dictLiteral (Level.of 9) tokens.toArray { cursor := 0, counts := {} } =
        .ok (.success tree, after) := by
  unfold dictionary? at found
  split at found
  next lexed =>
    split at found
    next accepted =>
      cases found
      exact ⟨lexed, accepted⟩
    next => cases found
  next => cases found

/-- A literal with a repeated key, the dictionary that comes of it, and a key that is set. -/
theorem dictionary_keys_are_distinct_repeated :
    let text := "\x7b\"a\": 1, \"b\": 2, \"a\": 3\x7d"
    let machine := Machine.afterText text
    (∃ tokens tree after span written kept, Grammar.dictionary? text = some (tokens, tree, after) ∧
      tree = .dict span kept ∧
        Grammar.Braced (Rule.between tokens.toArray 0 after.cursor) written ∧
          Grammar.Kept written kept) ∧
    (machine.store.object ⟨40⟩).payload = .dict ⟨0⟩ ∧
      (∀ entry ∈ machine.store.entries ⟨0⟩, ∃ text, machine.store.text? entry.1 = some text) ∧
        ∃ after, (Library.answer default .set [⟨40⟩, ⟨37⟩, ⟨38⟩]).Ends machine
          (.ok Library.null) after ∧
            machine.store.SetsKey after.store ⟨0⟩ "a" ⟨37⟩ (.object ⟨38⟩) := by
  intro text machine
  obtain ⟨holds, reads, sets⟩ := dictionary_keys_are_distinct .standard
  have read : (Grammar.dictionary? text).isSome = true := by decide +kernel
  obtain ⟨⟨tokens, tree, after⟩, found⟩ := Option.isSome_iff_exists.mp read
  obtain ⟨lexed, accepted⟩ := Grammar.read_of_dictionary? found
  have nonempty : 0 < tokens.length := by
    obtain ⟨words, ended, _⟩ := Lexer.read_ends lexed
    have counted := congrArg List.length ended
    simp only [List.length_map, List.length_append, List.length_singleton] at counted
    omega
  obtain ⟨span, written, kept, known⟩ := reads _ tokens lexed 9 0 {} tree after nonempty accepted
  have held : (machine.store.object ⟨40⟩).payload = .dict ⟨0⟩ :=
    Payload.eq_dict (by decide +kernel)
  have named : machine.store.text? ⟨37⟩ = some "a" := by decide +kernel
  obtain ⟨inside, texts, _⟩ := holds machine (Machine.reached_afterText text) ⟨40⟩ ⟨0⟩ held
  exact ⟨⟨tokens, tree, after, span, written, kept, found, known⟩, held, texts,
    (sets default machine ⟨40⟩ ⟨37⟩ ⟨38⟩ ⟨0⟩ inside held).1 "a" named⟩

end Lingo
