/-
Texts cut at a character.

The pieces of a text are what stands between the occurrences of a character.  Splitting a text
lists them, counting the character tells how many there are, and finding it how long the first is.
-/

import Lingo.Proofs.Eval.Keys

namespace Lingo

namespace Text

theorem pieces_eq_splitOn (char : Char) (chars : List Char) :
    pieces char chars = chars.splitOn char := by
  induction chars with
  | nil => rfl
  | cons first chars ih =>
      rw [pieces, ih, List.splitOn_cons_eq_if_modifyHead]
      by_cases same : first = char
      · rw [if_pos same, if_pos (beq_iff_eq.mpr same)]
      · rw [if_neg same, if_neg fun equal => same (eq_of_beq equal)]
        cases cut : chars.splitOn char with
        | nil => exact absurd cut (List.splitOn_ne_nil char chars)
        | cons piece others => rfl

theorem pieces_of_not_mem {char : Char} {chars : List Char} (absent : char ∉ chars) :
    pieces char chars = [chars] := by
  rw [pieces_eq_splitOn, List.splitOn_eq_singleton absent]

theorem pieces_append_cons {char : Char} {front : List Char} (absent : char ∉ front)
    (back : List Char) : pieces char (front ++ char :: back) = front :: pieces char back := by
  rw [pieces_eq_splitOn, pieces_eq_splitOn, List.splitOn_append_cons_self_of_not_mem absent]

theorem findIdx?_cases (char : Char) (chars : List Char) :
    (char ∉ chars ∧ chars.findIdx? (· = char) = none) ∨
      ∃ front others, pieces char chars = front :: others ∧ char ∈ chars ∧
        chars.findIdx? (· = char) = some front.length := by
  have nowhere {part : List Char} (absent : char ∉ part) : part.findIdx? (· = char) = none := by
    rw [List.findIdx?_eq_none_iff]
    intro other among
    exact decide_eq_false (ne_of_mem_of_not_mem among absent)
  by_cases inside : char ∈ chars
  · obtain ⟨front, back, rfl, absent⟩ := List.eq_append_cons_of_mem inside
    refine .inr ⟨front, _, pieces_append_cons absent back, inside, ?_⟩
    rw [List.findIdx?_append, nowhere absent, List.findIdx?_cons]
    simp
  · exact .inl ⟨inside, nowhere inside⟩

theorem length_pieces (char : Char) (chars : List Char) :
    (pieces char chars).length = chars.count char + 1 := by
  rw [pieces_eq_splitOn]
  induction chars with
  | nil => rfl
  | cons first chars ih =>
      rw [List.splitOn_cons_eq_if_modifyHead, List.count_cons]
      split <;> simp [ih]

theorem flatten_pieces (char : Char) (chars : List Char) :
    (pieces char chars).flatten = chars.filter (· ≠ char) := by
  induction chars with
  | nil => rfl
  | cons first chars ih =>
      rw [pieces_eq_splitOn, List.splitOn_cons_eq_if_modifyHead, ← pieces_eq_splitOn]
      split
      next same => simpa [eq_of_beq same] using ih
      next other =>
        have kept : first ≠ char := fun same => other (beq_iff_eq.mpr same)
        cases cut : pieces char chars with
        | nil => exact absurd (pieces_eq_splitOn char chars ▸ cut) (List.splitOn_ne_nil char chars)
        | cons piece others =>
            rw [cut] at ih
            simpa [kept] using ih

theorem mem_of_mem_pieces {char other : Char} {chars piece : List Char}
    (among : piece ∈ pieces char chars) (inside : other ∈ piece) : other ∈ chars ∧ other ≠ char := by
  have kept := List.mem_flatten_of_mem among inside
  rw [flatten_pieces] at kept
  simpa using kept

end Text

open Library in
/-- Searches in a text.  On every machine, splitting a text at a character lists parts that make up
the text with the character between them, and none of them holds it.  Counting the character gives
one less than the number of parts.  Finding it gives the length of the first part if there is a
further one, and else -1. -/
theorem text_searches_agree (call : Invocation) (before : Machine) (subject wanted : ObjectId)
    (text : String) (char : Char) (named : before.store.text? subject = some text)
    (single : before.store.text? wanted = some (String.singleton char)) :
    ∃ (parts : List String) (count : Nat) (index : Int),
      (∃ list slots after, (answer call .splitChar [subject, wanted]).Ends before
        (.ok (.object list)) after ∧ (after.store.object list).payload = .list slots ∧
        after.store.items slots = (parts.map fun part => .bare (.text part)).toArray) ∧
      (∃ id after, (answer call .frequency [subject, wanted]).Ends before (.ok (.object id)) after ∧
        (after.store.object id).payload = .number (.int count)) ∧
      (∃ id after, (answer call .findIndex [subject, wanted]).Ends before (.ok (.object id)) after ∧
        (after.store.object id).payload = .number (.int index)) ∧
      (String.singleton char).intercalate parts = text ∧ (∀ part ∈ parts, char ∉ part.toList) ∧
      parts.length = count + 1 ∧
      (0 < count → ∃ first others, parts = first :: others ∧ index = first.length) ∧
      (count = 0 → index = -1) := by
  have given := ends_text call named (some 0)
  have character : (call.character wanted).Ends before (.ok [char]) before := by
    apply Eval.Ends.bind (ends_text call single (some 1))
    rw [String.toList_singleton]
    rfl
  have number (value : Scalar) : ∃ id after, (freshNumber value).Ends before (.ok (.object id)) after ∧
      (after.store.object id).payload = .number value :=
    ⟨_, _, rfl, congrArg Object.payload (before.store.object_addObject _)⟩
  have list (items : List Slot) : ∃ list slots after, (freshList items).Ends before
      (.ok (.object list)) after ∧ (after.store.object list).payload = .list slots ∧
      after.store.items slots = items.toArray :=
    ⟨_, _, _, rfl, congrArg Object.payload (Store.object_addObject _ _),
      before.store.lists.read_push_new items.toArray⟩
  refine ⟨(Text.pieces char text.toList).map String.ofList, text.toList.count char,
    ((text.toList.findIdx? (· = char)).map Int.ofNat).getD (-1), ?_, ?_, ?_, ?_, ?_, ?_, ?_⟩
  · obtain ⟨id, slots, after, ends, its⟩ := list
      ((Text.pieces char text.toList).map fun piece => .bare (.text (String.ofList piece)))
    rw [List.map_map]
    exact ⟨id, slots, after, given.bind (character.bind ends), its⟩
  · obtain ⟨id, after, ends, its⟩ := number (.int (text.toList.count char))
    exact ⟨id, after, given.bind (character.bind ends), its⟩
  · obtain ⟨id, after, ends, its⟩ :=
      number (.int (((text.toList.findIdx? (· = char)).map Int.ofNat).getD (-1)))
    refine ⟨id, after, given.bind (character.bind ?_), its⟩
    dsimp only
    cases found : text.toList.findIdx? (· = char) <;> simp only [found] at ends <;> exact ends
  · apply String.toList_injective
    rw [String.toList_intercalate, String.toList_singleton, List.map_map]
    have same : String.toList ∘ String.ofList = id := funext fun _ => String.toList_ofList
    rw [same, List.map_id, Text.pieces_eq_splitOn, List.intercalate_splitOn]
  · intro part among
    obtain ⟨piece, inside, rfl⟩ := List.mem_map.mp among
    rw [String.toList_ofList]
    exact fun holds => (Text.mem_of_mem_pieces inside holds).2 rfl
  · rw [List.length_map, Text.length_pieces]
  · rcases Text.findIdx?_cases char text.toList with ⟨absent, none⟩ | ⟨front, others, cut, inside, found⟩
    · rw [none, List.count_eq_zero.mpr absent]
      exact ⟨fun never => absurd never (Nat.lt_irrefl 0), fun _ => rfl⟩
    · rw [found, cut]
      refine ⟨fun _ => ⟨_, _, List.map_cons, by simp⟩, fun none => ?_⟩
      exact absurd inside (List.count_eq_zero.mp none)

open Library in
/-- A separator at both ends and twice in a row. -/
theorem text_searches_agree_ends :
    let before : Machine :=
      { globals := ⟨0⟩
        store := { objects := ⟨#[{ payload := .text ",a,,b," }, { payload := .text "," }]⟩ } }
    ∃ (parts : List String) (count : Nat),
      (∃ id after, (answer default .frequency [⟨0⟩, ⟨1⟩]).Ends before (.ok (.object id)) after ∧
        (after.store.object id).payload = .number (.int count)) ∧
      ",".intercalate parts = ",a,,b," ∧ (∀ part ∈ parts, ',' ∉ part.toList) ∧
      parts.length = count + 1 := by
  intro before
  obtain ⟨parts, count, index, _, counted, _, joined, apart, length, _⟩ :=
    text_searches_agree default before ⟨0⟩ ⟨1⟩ ",a,,b," ',' rfl rfl
  exact ⟨parts, count, counted, joined, apart, length⟩

end Lingo
