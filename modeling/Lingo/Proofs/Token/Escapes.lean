/-
Literals with escapes.

A literal is meant to write any text: backslashes, quotes, line ends and tabs stand in it behind a
backslash.  The reader passes over each backslash and takes the character behind it as any other.
So a quote ends the string, escaped or not, and what stands behind it is read as a text of its own.
-/

import Lingo.Proofs.Token.Comments

namespace Lingo.Lexer

/-! ### Tokens read before -/

/-- A reader that has read further tokens before all others. -/
def State.onto (state : State) (words : List (Token × Mark)) : State :=
  { state with tokens := state.tokens ++ words }

variable (state : State) (words : List (Token × Mark))

theorem begin_onto (char : Char) : (state.onto words).begin char = (state.begin char).onto words := by
  simp only [State.begin, State.onto]
  split
  · rfl
  · split <;> rfl

theorem beginIfReading_onto (char : Char) :
    (state.onto words).beginIfReading char = (state.beginIfReading char).onto words := by
  obtain ⟨status, mark, tokens⟩ := state
  cases status with
  | reading mode => exact begin_onto _ words char
  | _ => rfl

theorem emitInt_onto (start : Mark) (read : List Char) :
    (state.onto words).emitInt start read = (state.emitInt start read).onto words := by
  unfold State.emitInt
  split <;> rfl

theorem feedIn_onto (char : Char) (mode : Mode) :
    (state.onto words).feedIn char mode = (state.feedIn char mode).onto words := by
  have stays (mode : Mode) :
      (state.onto words).stay mode char = (state.stay mode char).onto words := rfl
  have closes (token : Token) (start : Mark) :
      (state.onto words).close token start char = (state.close token start char).onto words := rfl
  have emits (token : Token) (start : Mark) : ((state.onto words).emit token start).begin char =
      ((state.emit token start).begin char).onto words := begin_onto (state.emit token start) _ _
  cases mode <;>
    simp only [State.feedIn, State.symbol, begin_onto, beginIfReading_onto, emitInt_onto, stays,
      closes, emits, apply_ite (State.onto · words)]
  rfl

theorem feed_onto (char : Char) : (state.onto words).feed char = (state.feed char).onto words := by
  obtain ⟨status, mark, tokens⟩ := state
  cases status with
  | reading mode => exact feedIn_onto _ words char mode
  | _ => rfl

theorem finish_onto : (state.onto words).finish = state.finish.onto words := by
  obtain ⟨status, mark, tokens⟩ := state
  cases status with
  | reading mode =>
      cases mode with
      | digits start read => exact emitInt_onto _ words start read
      | _ => rfl
  | _ => rfl

theorem content_onto (chars : List Char) :
    (chars.foldl State.feed (state.onto words)).finish.content =
      (chars.foldl State.feed state).finish.content.map ((words.map Prod.fst).reverse ++ ·) := by
  rw [List.foldl_hom (State.onto · words) fun state char => feed_onto state words char, finish_onto]
  generalize (chars.foldl State.feed state).finish = ended
  obtain ⟨status, mark, tokens⟩ := ended
  cases status with
  | reading mode => simp [State.onto, State.content, Except.map]
  | _ => rfl

/-! ### Literals -/

def escape (char : Char) : List Char :=
  if char = '\\' then ['\\', '\\']
  else if char = '"' then ['\\', '"']
  else if char = '\n' then ['\\', 'n']
  else if char = '\t' then ['\\', 't']
  else [char]

def literal (text : String) : String :=
  String.ofList ('"' :: (text.toList.flatMap escape ++ ['"']))

/-- What is left of a character, other than a quote, once its escape is read. -/
def kept (char : Char) : List Char :=
  if char = '\\' then [] else if char = '\n' then ['n'] else if char = '\t' then ['t'] else [char]

def IsPlain (char : Char) : Prop :=
  char ≠ '\\' ∧ char ≠ '"' ∧ char ≠ '\n' ∧ char ≠ '\t'

variable {chars : List Char}

theorem escape_spec {char : Char} (noQuote : char ≠ '"') :
    '"' ∉ escape char ∧ (escape char).filter (· ≠ '\\') = kept char ∧
      ∀ other ∈ kept char, IsPlain other := by
  unfold escape kept IsPlain
  by_cases slash : char = '\\'
  · simp [slash]
  by_cases line : char = '\n'
  · simp [line]
  by_cases tab : char = '\t'
  · simp [tab]
  simp [slash, noQuote, Ne.symm noQuote, line, tab]

section

variable (noQuote : '"' ∉ chars)

include noQuote

theorem quote_not_mem_escaped : '"' ∉ chars.flatMap escape := by
  rw [List.mem_flatMap]
  rintro ⟨char, member, inside⟩
  exact (escape_spec (ne_of_mem_of_not_mem member noQuote)).1 inside

theorem filter_escaped : (chars.flatMap escape).filter (· ≠ '\\') = chars.flatMap kept := by
  rw [List.filter_flatMap]
  exact List.flatMap_congr fun char member =>
    (escape_spec (ne_of_mem_of_not_mem member noQuote)).2.1

theorem isPlain_of_mem_kept : ∀ char ∈ chars.flatMap kept, IsPlain char := by
  intro char member
  obtain ⟨other, inside, its⟩ := List.mem_flatMap.mp member
  exact (escape_spec (ne_of_mem_of_not_mem inside noQuote)).2.2 char its

/-- Inside a string, backslashes are passed over and all else is kept up to the next quote. -/
theorem foldl_feed_quote (start mark : Mark) (read : List Char) (tokens : List (Token × Mark)) :
    ∃ after, chars.foldl State.feed ⟨.reading (.quote start read), mark, tokens⟩ =
      ⟨.reading (.quote start ((chars.filter (· ≠ '\\')).reverse ++ read)), after, tokens⟩ := by
  induction chars generalizing mark read with
  | nil => exact ⟨mark, rfl⟩
  | cons char chars ih =>
      obtain ⟨other, later⟩ := List.ne_and_not_mem_of_not_mem_cons noQuote
      by_cases slash : char = '\\'
      · obtain ⟨after, run⟩ := ih later (mark.after char) read
        refine ⟨after, ?_⟩
        rw [List.filter_cons_of_neg (by simp [slash]), ← run]
        simp only [List.foldl_cons, State.feed, State.feedIn, if_neg other.symm, if_pos slash,
          State.stay]
      · obtain ⟨after, run⟩ := ih later (mark.after char) (char :: read)
        refine ⟨after, ?_⟩
        rw [List.filter_cons_of_pos (by simp [slash]), List.reverse_cons, List.append_assoc,
          List.singleton_append, ← run]
        simp only [List.foldl_cons, State.feed, State.feedIn, if_neg other.symm, if_neg slash,
          State.stay]

/-- What stands between two quotes is one string, and what follows is read on its own. -/
theorem content_scan_quoted (rest : List Char) :
    (scan ('"' :: (chars ++ '"' :: rest))).content =
      (scan rest).content.map
        (.string (String.ofList (chars.filter (· ≠ '\\'))) :: ·) := by
  obtain ⟨after, run⟩ := foldl_feed_quote noQuote .origin (Mark.origin.after '"') [] []
  have opened : State.start.feed '"' =
      ⟨.reading (.quote .origin []), Mark.origin.after '"', []⟩ := rfl
  have closed : State.feed ⟨.reading (.quote .origin ((chars.filter (· ≠ '\\')).reverse ++ [])),
        after, []⟩ '"' =
      State.onto ⟨.reading .between, after.after '"', []⟩
        [(.string (String.ofList (chars.filter (· ≠ '\\'))), .origin)] := by
    simp only [State.feed, State.feedIn, if_true, State.close, List.append_nil,
      List.reverse_reverse]
    rfl
  have alike : State.Alike Anywhere ⟨.reading .between, after.after '"', []⟩ .start :=
    ⟨.reading .between, trivial, .nil⟩
  unfold scan
  rw [List.foldl_cons, opened, List.foldl_append, run, List.foldl_cons, closed, content_onto,
    content_finish_of_alike alike rest]
  rfl

end

/-- Reading the literal of a text.  Without quotes in the text it is one string, from which the
backslashes of the text are lost, and in which letters stand for its line ends and tabs.  The first
quote in the text ends the string, and the rest of the literal is read on its own.  So the string is
the text itself just if none of these characters is in it. -/
theorem content_read_literal (name text : String) :
    ('"' ∉ text.toList → (read ⟨name, literal text⟩).content =
      .ok [.string (String.ofList (text.toList.flatMap kept)), .eof]) ∧
    (∀ front back, text.toList = front ++ '"' :: back → '"' ∉ front →
      (read ⟨name, literal text⟩).content =
        (read ⟨name, String.ofList (back.flatMap escape ++ ['"'])⟩).content.map
          (.string (String.ofList (front.flatMap kept)) :: ·)) ∧
    ((read ⟨name, literal text⟩).content = .ok [.string text, .eof] ↔
      ∀ char ∈ text.toList, IsPlain char) := by
  have whole (noQuote : '"' ∉ text.toList) : (read ⟨name, literal text⟩).content =
      .ok [.string (String.ofList (text.toList.flatMap kept)), .eof] := by
    rw [content_read, literal, String.toList_ofList,
      content_scan_quoted (quote_not_mem_escaped noQuote), filter_escaped noQuote]
    rfl
  have parted (front back : List Char) (split : text.toList = front ++ '"' :: back)
      (noQuote : '"' ∉ front) : (read ⟨name, literal text⟩).content =
      (read ⟨name, String.ofList (back.flatMap escape ++ ['"'])⟩).content.map
        (.string (String.ofList (front.flatMap kept)) :: ·) := by
    have spelt : text.toList.flatMap escape ++ ['"'] =
        (front.flatMap escape ++ ['\\']) ++ '"' :: (back.flatMap escape ++ ['"']) := by
      rw [split, List.flatMap_append, List.flatMap_cons]
      simp [escape]
    have inside : '"' ∉ front.flatMap escape ++ ['\\'] := by
      simp [quote_not_mem_escaped noQuote]
    rw [content_read, content_read, literal, String.toList_ofList, String.toList_ofList, spelt,
      content_scan_quoted inside, List.filter_append, filter_escaped noQuote]
    simp
  refine ⟨whole, parted, ?_, ?_⟩
  · intro same
    -- Whatever is read first is a string of plain characters.
    have plain {chars : List Char} (noQuote : '"' ∉ chars)
        (kepts : Token.string (String.ofList (chars.flatMap kept)) = .string text) :
        ∀ char ∈ text.toList, IsPlain char := by
      cases kepts
      rw [String.toList_ofList]
      exact isPlain_of_mem_kept noQuote
    by_cases quoted : '"' ∈ text.toList
    · obtain ⟨front, back, split, noQuote⟩ := List.eq_append_cons_of_mem quoted
      rw [parted front back split noQuote] at same
      cases rest : (read ⟨name, String.ofList (back.flatMap escape ++ ['"'])⟩).content with
      | error cause =>
          rw [rest] at same
          cases same
      | ok tokens =>
          rw [rest] at same
          exact plain noQuote (List.cons.inj (Except.ok.inj same)).1
    · rw [whole quoted] at same
      exact plain quoted (List.cons.inj (Except.ok.inj same)).1
  · intro plain
    have unchanged : text.toList.flatMap kept = text.toList := by
      rw [List.flatMap_congr fun char member => ?_, List.flatMap_singleton']
      obtain ⟨slash, _, line, tab⟩ := plain char member
      simp only [kept, if_neg slash, if_neg line, if_neg tab]
    rw [whole fun quoted => (plain _ quoted).2.1 rfl, unchanged, String.ofList_toList]

/-- A quotation inside a text: the reader takes it for a name between two strings, the second of
which is not closed. -/
theorem content_read_literal_quotation :
    ("a\"b\"c".toList = ['a'] ++ '"' :: ['b', '"', 'c'] ∧ '"' ∉ ['a'] ∧ '"' ∉ "a\tb".toList) ∧
    (read ⟨"", literal "a\"b\"c"⟩).content =
      (read ⟨"", "b\\\"c\""⟩).content.map (.string "a" :: ·) ∧
    (read ⟨"", literal "a\tb"⟩).content = .ok [.string "atb", .eof] := by
  have split : "a\"b\"c".toList = ['a'] ++ '"' :: ['b', '"', 'c'] := rfl
  have front : '"' ∉ ['a'] := by decide
  have noQuote : '"' ∉ "a\tb".toList := by decide
  exact ⟨⟨split, front, noQuote⟩, (content_read_literal "" "a\"b\"c").2.1 _ _ split front,
    (content_read_literal "" "a\tb").1 noQuote⟩

/-- The literal of a backslash is read as the empty text. -/
theorem literal_loses_backslash :
    (read ⟨"", literal "\\"⟩).content = .ok [.string "", .eof] :=
  rfl

end Lingo.Lexer
