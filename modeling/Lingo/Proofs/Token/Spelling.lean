/-
Writing tokens and reading them back.

A token is written by its lexeme, and tokens are written with one blank between two of
them.  The reader of such a text holds, behind each lexeme, exactly the tokens written so
far: the last one may still be under way, and the blank or the end of the text ends it.
-/

import Lingo.Token.Lexer

namespace Lingo

attribute [local instance (high)] instPowNat

/-- Whether a text is a name: a letter, then letters, digits and underscores, and no reserved
word. -/
def IsName (name : String) : Prop :=
  (∃ first rest, name.toList = first :: rest ∧ first.isAlpha = true ∧
    ∀ char ∈ rest, (char.isAlphanum || char == '_') = true) ∧
  ∀ word : Keyword, word.spelling ≠ name

namespace Token

def lexeme : Token → String
  | int n => toString n
  | float x => Numeral.Layout.number.write x
  | string text => "\"" ++ text ++ "\""
  | identifier name => name
  | keyword word => word.spelling
  | symbol s => s.spelling
  | newline => "\n"
  | eof => ""

/-- Whether a token can be read back from its lexeme: integers of few enough digits, strings
without quotes and backslashes, names, and all that has a spelling of its own. -/
def Writable : Token → Prop
  | int n => n < 10 ^ Numeral.digitLimit
  | string text => ∀ char ∈ text.toList, char ≠ '"' ∧ char ≠ '\\'
  | identifier name => IsName name
  | keyword _ => True
  | symbol _ => True
  | newline => True
  | float _ => False
  | eof => False

/-- Whether a text writes a token.  The end of a line has two lexemes, and all other tokens have
one. -/
inductive WrittenBy : Token → String → Prop
  | lexeme {token : Token} (writable : token.Writable) : WrittenBy token token.lexeme
  | semicolon : WrittenBy .newline ";"

end Token

def spell (words : List Token) : String :=
  " ".intercalate (words.map Token.lexeme)

namespace Lexer

variable {words : List Token} {char : Char} {state : State}

/-! ### Characters -/

theorem single?_of_isAlphanum (known : char.isAlphanum = true) : single? char = none := by
  unfold single?
  split <;> first | rfl | exact absurd known (by decide)

theorem isAlphanum_of_isDigit (digit : char.isDigit = true) : char.isAlphanum = true := by
  simp [Char.isAlphanum, digit]

theorem isAlphanum_of_isAlpha (letter : char.isAlpha = true) : char.isAlphanum = true := by
  simp [Char.isAlphanum, letter]

theorem not_isDigit_of_isAlpha (letter : char.isAlpha = true) : ¬ char.isDigit = true := by
  intro digit
  -- The classes are intervals of code points.
  change (decide (char.val ≥ 'A'.val ∧ char.val ≤ 'Z'.val) ||
    (decide (char.val ≥ 'a'.val) && decide (char.val ≤ 'z'.val))) = true at letter
  change (decide (char.val ≥ '0'.val) && decide (char.val ≤ '9'.val)) = true at digit
  simp only [Bool.or_eq_true, Bool.and_eq_true, decide_eq_true_eq, ge_iff_le,
    UInt32.le_iff_toNat_le] at letter digit
  have upper : 'A'.val.toNat = 65 := rfl
  have lower : 'a'.val.toNat = 97 := rfl
  have nine : '9'.val.toNat = 57 := rfl
  omega

theorem plain_of_isAlphanum (known : char.isAlphanum = true) :
    ¬ (char = ' ' ∨ char = '\t') ∧ char ≠ '@' := by
  constructor
  · intro blank
    rcases blank with rfl | rfl
    · exact absurd known (by decide)
    · exact absurd known (by decide)
  · intro comment
    rw [comment] at known
    exact absurd known (by decide)

theorem opening?_of_isDigit (mark : Mark) (digit : char.isDigit = true) :
    opening? mark char = some (.digits mark [char]) := by
  obtain ⟨blank, comment⟩ := plain_of_isAlphanum (isAlphanum_of_isDigit digit)
  simp only [opening?, if_neg blank, if_neg comment, digit, if_true]

theorem opening?_of_isAlpha (mark : Mark) (letter : char.isAlpha = true) :
    opening? mark char = some (.word mark [char]) := by
  obtain ⟨blank, comment⟩ := plain_of_isAlphanum (isAlphanum_of_isAlpha letter)
  have digit := not_isDigit_of_isAlpha letter
  simp only [opening?, if_neg blank, if_neg comment, if_neg digit, isLetter, letter, if_true]

/-! ### One lexeme -/

/-- The reader is between tokens and has read the given ones. -/
def State.Stands (state : State) (words : List Token) : Prop :=
  state.status = .reading .between ∧ state.tokens.map Prod.fst = words.reverse

theorem map_fst_cons {tokens : List (Token × Mark)} (read : tokens.map Prod.fst = words.reverse)
    (token : Token) (start : Mark) :
    ((token, start) :: tokens).map Prod.fst = (words ++ [token]).reverse := by
  rw [List.map_cons, read, List.reverse_append, List.reverse_singleton, List.singleton_append]

theorem State.Stands.exists_eq {state : State} {words : List Token} (stands : state.Stands words) :
    ∃ mark tokens, state = ⟨.reading .between, mark, tokens⟩ ∧
      tokens.map Prod.fst = words.reverse := by
  obtain ⟨status, mark, tokens⟩ := state
  obtain ⟨between, read⟩ := stands
  exact ⟨mark, tokens, congrArg (State.mk · mark tokens) between, read⟩

/-- A blank, or else the end of the text, makes the given tokens the ones that were read. -/
def State.Holds (state : State) (words : List Token) : Prop :=
  (state.feed ' ').Stands words ∧
    (∃ mode, state.finish.status = .reading mode) ∧
      state.finish.tokens.map Prod.fst = words.reverse

section

variable {state : State} {words : List Token} (stands : state.Stands words)

include stands

theorem State.Stands.holds : state.Holds words := by
  obtain ⟨status, tokens⟩ := stands
  have fed : state.feed ' ' = { state with
      status := .reading .between, mark := state.mark.after ' ' } := by
    simp only [State.feed, status, State.feedIn]
    rfl
  have finished : state.finish = state := by
    simp only [State.finish, status, State.finishIn]
  refine ⟨?_, ?_, ?_⟩
  · rw [fed]
    exact ⟨rfl, tokens⟩
  · rw [finished]
    exact ⟨.between, status⟩
  · rw [finished]
    exact tokens

theorem State.Stands.symbol (symbol : Symbol) :
    (symbol.spelling.toList.foldl State.feed state).Holds (words ++ [.symbol symbol]) := by
  obtain ⟨mark, tokens, rfl, read⟩ := stands.exists_eq
  have added := map_fst_cons read (.symbol symbol) mark
  cases symbol <;> exact ⟨⟨rfl, added⟩, ⟨_, rfl⟩, added⟩

theorem State.Stands.punctuation {token : Token} (known : single? char = some token) :
    (state.feed char).Stands (words ++ [token]) := by
  obtain ⟨mark, tokens, rfl, read⟩ := stands.exists_eq
  have fed : State.feed { status := .reading .between, mark, tokens } char =
      { status := .reading .between
        mark := mark.after char
        tokens := (token, mark) :: tokens } := by
    simp only [State.feed, State.feedIn, State.begin, known]
  rw [fed]
  exact ⟨rfl, map_fst_cons read token mark⟩

end

/-- A mode that collects each character of a text holds them all behind it, the last one first. -/
theorem foldl_feed_collects (mode : List Char → Mode) (tokens : List (Token × Mark))
    (chars : List Char)
    (collects : ∀ char ∈ chars, ∀ (state : State) (read : List Char),
      state.feedIn char (mode read) = state.stay (mode (char :: read)) char) :
    ∀ (mark : Mark) (read : List Char), ∃ after : Mark,
      chars.foldl State.feed { status := .reading (mode read), mark, tokens } =
        { status := .reading (mode (chars.reverse ++ read)), mark := after, tokens } := by
  induction chars with
  | nil =>
      intro mark read
      exact ⟨mark, rfl⟩
  | cons char chars ih =>
      intro mark read
      have step : State.feed { status := .reading (mode read), mark, tokens } char =
          { status := .reading (mode (char :: read)), mark := mark.after char, tokens } :=
        collects char List.mem_cons_self _ read
      have later : ∀ other ∈ chars, ∀ (state : State) (read : List Char),
          state.feedIn other (mode read) = state.stay (mode (other :: read)) other :=
        fun other member => collects other (List.mem_cons_of_mem char member)
      obtain ⟨after, collected⟩ := ih later (mark.after char) (char :: read)
      refine ⟨after, ?_⟩
      rw [List.foldl_cons, step, collected, List.reverse_cons, List.append_assoc,
        List.singleton_append]

theorem State.holds_of_emit {token : Token} (start : Mark)
    (read : state.tokens.map Prod.fst = words.reverse)
    (fed : state.feed ' ' = (state.emit token start).begin ' ')
    (finished : state.finish = state.emit token start) : state.Holds (words ++ [token]) := by
  have added := map_fst_cons read token start
  refine ⟨?_, ?_, ?_⟩
  · rw [fed]
    exact ⟨rfl, added⟩
  · rw [finished]
    exact ⟨.between, rfl⟩
  · rw [finished]
    exact added

theorem State.feed_of_opening {mark : Mark} {mode : Mode} (tokens : List (Token × Mark))
    (known : char.isAlphanum = true) (opens : opening? mark char = some mode) :
    State.feed { status := .reading .between, mark, tokens } char =
      { status := .reading mode, mark := mark.after char, tokens } := by
  simp only [State.feed, State.feedIn, State.begin, single?_of_isAlphanum known, opens]

theorem State.Stands.word (stands : state.Stands words) {word : String} {first : Char}
    {rest : List Char} (spelt : word.toList = first :: rest) (letter : first.isAlpha = true)
    (inWord : ∀ char ∈ rest, isWordChar char = true) :
    (word.toList.foldl State.feed state).Holds (words ++ [wordToken word]) := by
  obtain ⟨mark, tokens, rfl, read⟩ := stands.exists_eq
  have collects : ∀ char ∈ rest, ∀ (state : State) (read : List Char),
      state.feedIn char (.word mark read) = state.stay (.word mark (char :: read)) char := by
    intro char member state read
    simp only [State.feedIn, if_pos (inWord char member)]
  obtain ⟨after, collected⟩ :=
    foldl_feed_collects (Mode.word mark) tokens rest collects (mark.after first) [first]
  have whole : String.ofList (rest.reverse ++ [first]).reverse = word := by
    rw [List.reverse_append, List.reverse_reverse, List.reverse_singleton, List.singleton_append,
      ← spelt, String.ofList_toList]
  have blank : ¬ isWordChar ' ' = true := by decide
  rw [spelt, List.foldl_cons, State.feed_of_opening tokens (isAlphanum_of_isAlpha letter)
    (opening?_of_isAlpha mark letter), collected]
  apply State.holds_of_emit mark read
  · simp only [State.feed, State.feedIn, if_neg blank, whole]
  · simp only [State.finish, State.finishIn, whole]

theorem number_toDigits (n : Nat) : Text.number (Nat.toDigits 10 n) = n := by
  have same : Text.number (Nat.toDigits 10 n) = Nat.ofDigitChars 10 (Nat.toDigits 10 n) 0 := by
    rw [Nat.ofDigitChars_eq_foldl, Text.number]
    congr 1
    funext total digit
    rw [Nat.mul_comm]
    rfl
  rw [same, Nat.ofDigitChars_ten_toDigits]

/-- The digits of a number are collected, and they are few enough to be read as the number. -/
theorem foldl_feed_digits (mark : Mark) (tokens : List (Token × Mark)) {n : Nat}
    (short : n < 10 ^ Numeral.digitLimit) :
    ∃ (after : Mark) (read : List Char),
      (toString n).toList.foldl State.feed { status := .reading .between, mark, tokens } =
        { status := .reading (.digits mark read), mark := after, tokens } ∧
      ¬ Numeral.digitLimit < read.length ∧ Text.number read.reverse = n := by
  have digits : ∀ char ∈ Nat.toDigits 10 n, char.isDigit = true :=
    fun char member => Nat.isDigit_of_mem_toDigits (by decide) (by decide) member
  have length : (Nat.toDigits 10 n).length ≤ Numeral.digitLimit :=
    (Nat.length_toDigits_le_iff (by decide) (by decide)).mpr short
  have spelt : (toString n).toList = Nat.toDigits 10 n := Nat.toList_repr
  have value := number_toDigits n
  rw [spelt]
  cases written : Nat.toDigits 10 n with
  | nil => exact absurd written Nat.toDigits_ne_nil
  | cons first rest =>
      -- The first digit opens the number; the others are collected behind it.
      rw [written] at digits length value
      have collects : ∀ char ∈ rest, ∀ (state : State) (read : List Char),
          state.feedIn char (.digits mark read) =
            state.stay (.digits mark (char :: read)) char := by
        intro char member state read
        simp only [State.feedIn, if_pos (digits char (List.mem_cons_of_mem first member))]
      obtain ⟨after, collected⟩ :=
        foldl_feed_collects (Mode.digits mark) tokens rest collects (mark.after first) [first]
      have whole : (rest.reverse ++ [first]).reverse = first :: rest := by
        rw [List.reverse_append, List.reverse_reverse, List.reverse_singleton,
          List.singleton_append]
      refine ⟨after, rest.reverse ++ [first], ?_, ?_, ?_⟩
      · have digit := digits first List.mem_cons_self
        rw [List.foldl_cons, State.feed_of_opening tokens (isAlphanum_of_isDigit digit)
          (opening?_of_isDigit mark digit), collected]
      · rw [List.length_append, List.length_reverse, List.length_singleton]
        exact Nat.not_lt.mpr length
      · rw [whole, value]

theorem State.Stands.int (stands : state.Stands words) {n : Nat}
    (short : n < 10 ^ Numeral.digitLimit) :
    ((toString n).toList.foldl State.feed state).Holds (words ++ [.int n]) := by
  obtain ⟨mark, tokens, rfl, read⟩ := stands.exists_eq
  obtain ⟨after, digits, collected, few, value⟩ := foldl_feed_digits mark tokens short
  have blank : ¬ ' '.isDigit = true := by decide
  have dot : ' ' ≠ '.' := by decide
  rw [collected]
  apply State.holds_of_emit mark read
  · simp only [State.feed, State.feedIn, if_neg blank, if_neg dot, State.emitInt, if_neg few,
      value]
    rfl
  · simp only [State.finish, State.finishIn, State.emitInt, if_neg few, value]

theorem State.Stands.string (stands : state.Stands words) {text : String}
    (plain : ∀ char ∈ text.toList, char ≠ '"' ∧ char ≠ '\\') :
    (("\"" ++ text ++ "\"").toList.foldl State.feed state).Stands (words ++ [.string text]) := by
  obtain ⟨mark, tokens, rfl, read⟩ := stands.exists_eq
  have collects : ∀ char ∈ text.toList, ∀ (state : State) (read : List Char),
      state.feedIn char (.quote mark read) = state.stay (.quote mark (char :: read)) char := by
    intro char member state read
    obtain ⟨noQuote, noEscape⟩ := plain char member
    simp only [State.feedIn, if_neg noQuote, if_neg noEscape]
  obtain ⟨after, collected⟩ :=
    foldl_feed_collects (Mode.quote mark) tokens text.toList collects (mark.after '"') []
  have whole : String.ofList (text.toList.reverse ++ []).reverse = text := by
    rw [List.append_nil, List.reverse_reverse, String.ofList_toList]
  have opened : State.feed { status := .reading .between, mark, tokens } '"' =
      { status := .reading (.quote mark []), mark := mark.after '"', tokens } := rfl
  have spelt : ("\"" ++ text ++ "\"").toList = '"' :: (text.toList ++ ['"']) := by
    rw [String.toList_append, String.toList_append]
    rfl
  rw [spelt, List.foldl_cons, opened, List.foldl_append, collected]
  have closed : (['"'].foldl State.feed
      { status := .reading (.quote mark (text.toList.reverse ++ [])), mark := after, tokens }) =
      { status := .reading .between, mark := after.after '"',
        tokens := (.string text, mark) :: tokens } := by
    rw [List.foldl_cons, List.foldl_nil]
    simp only [State.feed, State.feedIn, if_true, State.close, whole]
  rw [closed]
  exact ⟨rfl, map_fst_cons read (.string text) mark⟩

theorem wordToken_spelling (word : Keyword) : wordToken word.spelling = .keyword word := by
  cases word <;> rfl

theorem wordToken_of_isName {name : String} (known : IsName name) :
    wordToken name = .identifier name := by
  have unreserved : Keyword.ofSpelling? name = none := by
    rw [Keyword.ofSpelling?, List.find?_eq_none]
    intro word _
    rw [decide_eq_true_eq]
    exact known.2 word
  rw [wordToken, unreserved]

theorem State.Stands.lexeme (stands : state.Stands words) {token : Token}
    (writable : token.Writable) :
    (token.lexeme.toList.foldl State.feed state).Holds (words ++ [token]) := by
  cases token with
  | int n => exact stands.int writable
  | float x => exact writable.elim
  | string text => exact (stands.string writable).holds
  | identifier name =>
      obtain ⟨first, rest, spelt, letter, inWord⟩ := writable.1
      have held := stands.word spelt letter inWord
      rw [wordToken_of_isName writable] at held
      exact held
  | keyword word =>
      have held : (word.spelling.toList.foldl State.feed state).Holds
          (words ++ [wordToken word.spelling]) := by
        cases word <;> exact stands.word rfl rfl (List.all_eq_true.mp rfl)
      rw [wordToken_spelling] at held
      exact held
  | symbol symbol => exact stands.symbol symbol
  | newline => exact (stands.punctuation rfl).holds
  | eof => exact writable.elim

theorem State.Stands.written (stands : state.Stands words) {token : Token} {text : String}
    (written : token.WrittenBy text) :
    (text.toList.foldl State.feed state).Holds (words ++ [token]) := by
  cases written with
  | lexeme writable => exact stands.lexeme writable
  | semicolon => exact (stands.punctuation rfl).holds

/-- Reading a text that writes tokens, one blank between two of them, adds these tokens. -/
theorem State.Stands.line {words : List (Token × String)} (some : words ≠ [])
    (written : ∀ word ∈ words, word.1.WrittenBy word.2) :
    ∀ {state : State} {before : List Token}, state.Stands before →
      ((" ".intercalate (words.map Prod.snd)).toList.foldl State.feed state).Holds
        (before ++ words.map Prod.fst) := by
  induction words with
  | nil => exact absurd rfl some
  | cons first rest ih =>
      intro state before stands
      have held := stands.written (written first List.mem_cons_self)
      cases rest with
      | nil => exact held
      | cons second rest =>
          have later : ∀ word ∈ second :: rest, word.1.WrittenBy word.2 :=
            fun word member => written word (List.mem_cons_of_mem first member)
          have spelt : " ".intercalate ((first :: second :: rest).map Prod.snd) =
              first.2 ++ " " ++ " ".intercalate ((second :: rest).map Prod.snd) :=
            String.intercalate_cons_cons
          have read := ih (List.cons_ne_nil second rest) later held.1
          rw [List.append_assoc, List.singleton_append] at read
          rw [spelt, String.toList_append, String.toList_append, List.foldl_append,
            List.foldl_append]
          exact read

theorem State.holds_line {words : List (Token × String)}
    (written : ∀ word ∈ words, word.1.WrittenBy word.2) :
    ((" ".intercalate (words.map Prod.snd)).toList.foldl State.feed .start).Holds
      (words.map Prod.fst) := by
  have origin : State.start.Stands [] := ⟨rfl, rfl⟩
  cases words with
  | nil => exact origin.holds
  | cons first rest => exact State.Stands.line (List.cons_ne_nil first rest) written origin

theorem read_of_holds (name : String) {text : String}
    (held : (text.toList.foldl State.feed .start).Holds words) :
    ∃ placed, read { name, text } = .tokens placed ∧
      placed.map Placed.token = words ++ [.eof] := by
  obtain ⟨-, ⟨mode, reading⟩, tokens⟩ := held
  have kept : ∀ final : Mark, Placed.token ∘ (fun word : Token × Mark =>
      place { name, text } final word.1 word.2) = Prod.fst := fun _ => rfl
  simp only [read, scan, reading]
  refine ⟨_, rfl, ?_⟩
  rw [List.map_map, kept, List.map_reverse, List.map_cons, tokens, List.reverse_cons,
    List.reverse_reverse]

theorem read_spell (name : String) (writable : ∀ token ∈ words, token.Writable) :
    ∃ placed, read { name, text := spell words } = .tokens placed ∧
      placed.map Placed.token = words ++ [.eof] := by
  have written : ∀ word ∈ words.map fun token => (token, token.lexeme),
      word.1.WrittenBy word.2 := by
    intro word member
    obtain ⟨token, known, rfl⟩ := List.mem_map.mp member
    exact .lexeme (writable token known)
  have held := State.holds_line written
  rw [List.map_map, List.map_map] at held
  have same : words.map (Prod.fst ∘ fun token => (token, token.lexeme)) = words := List.map_id words
  rw [same] at held
  exact read_of_holds name held

/-- Reading undoes writing: whatever tokens are written, each by one of its lexemes and with one
blank between two of them, are read back in their order, and the end of the text follows. -/
theorem read_undoes_writing (name : String) (words : List (Token × String))
    (written : ∀ word ∈ words, word.1.WrittenBy word.2) :
    ∃ placed,
      read { name, text := " ".intercalate (words.map Prod.snd) } = .tokens placed ∧
      placed.map Placed.token = words.map Prod.fst ++ [.eof] :=
  read_of_holds name (State.holds_line written)

/-- Both ways to end a line, signs that a longer symbol begins with, and a string that holds a
comment and the end of a line. -/
theorem read_undoes_writing_mixed :
    (∀ word ∈ [(Token.keyword .varWord, "var"), (.identifier "x_1", "x_1"),
        (.symbol .assign, "="), (.symbol .minus, "-"), (.int 120, "120"), (.newline, ";"),
        (.string "@/ \n @ ->", "\"@/ \n @ ->\""), (.symbol .arrow, "->"),
        (.symbol .divide, "/"), (.newline, "\n"), (.symbol .less, "<"),
        (.symbol .lessEqual, "<=")],
      Token.WrittenBy word.1 word.2) ∧
    ∃ placed,
      read { name := "<stdin>", text := "var x_1 = - 120 ; \"@/ \n @ ->\" -> / \n < <=" } =
        .tokens placed ∧
      placed.map Placed.token =
        [.keyword .varWord, .identifier "x_1", .symbol .assign, .symbol .minus, .int 120, .newline,
          .string "@/ \n @ ->", .symbol .arrow, .symbol .divide, .newline, .symbol .less,
          .symbol .lessEqual, .eof] := by
  have written : ∀ word ∈ [(Token.keyword .varWord, "var"), (.identifier "x_1", "x_1"),
      (.symbol .assign, "="), (.symbol .minus, "-"), (.int 120, "120"), (.newline, ";"),
      (.string "@/ \n @ ->", "\"@/ \n @ ->\""), (.symbol .arrow, "->"),
      (.symbol .divide, "/"), (.newline, "\n"), (.symbol .less, "<"),
      (.symbol .lessEqual, "<=")], Token.WrittenBy word.1 word.2 := by
    have named : IsName "x_1" :=
      ⟨⟨'x', ['_', '1'], rfl, rfl, List.all_eq_true.mp rfl⟩, fun word => by cases word <;> decide⟩
    have short : 120 < 10 ^ Numeral.digitLimit :=
      Nat.lt_of_lt_of_le (Nat.lt_pow_self (by decide))
        (Nat.pow_le_pow_right (by decide) (by decide))
    have plain : ∀ char ∈ "@/ \n @ ->".toList, char ≠ '"' ∧ char ≠ '\\' := by
      simp
    have number : Token.WrittenBy (.int 120) "120" := .lexeme short
    simp only [List.forall_mem_cons]
    refine ⟨.lexeme trivial, .lexeme named, .lexeme trivial, .lexeme trivial, number, .semicolon,
      .lexeme plain, .lexeme trivial, .lexeme trivial, .lexeme trivial, .lexeme trivial,
      .lexeme trivial, fun _ none => absurd none List.not_mem_nil⟩
  exact ⟨written, read_undoes_writing "<stdin>" _ written⟩

end Lexer

end Lingo
