/-
Where tokens start in a text.

A text falls into the lexemes of its tokens and what stands between them.  The reader keeps to
this with every character: the tokens that it has read lie in the text in front of it, and so do
the characters of a token under way.
-/

import Lingo.Proofs.Token.Endings

namespace Lingo

/-- The mark behind characters: how many they are, how many of them end lines, and how many stand
behind the last line end. -/
def Mark.behind (before : List Char) : Mark :=
  { index := before.length
    line := before.count '\n'
    column := (before.reverse.takeWhile (· ≠ '\n')).length }

theorem Mark.behind_snoc (before : List Char) (char : Char) :
    behind (before ++ [char]) = (behind before).after char := by
  by_cases line : char = '\n'
  · subst line
    simp [behind, after, advance]
  · simp [behind, after, advance, line, List.count_append]

namespace Lexer

variable {token : Token} {mode : Mode}

/-! ### Lexemes -/

/-- The character that would make a symbol a longer one. -/
def second? : Symbol → Option Char
  | .assign | .less | .greater => some '='
  | .divide => some '/'
  | .minus => some '>'
  | _ => none

/-- What follows does not begin with a character of some kind. -/
def Stops (kind : Char → Prop) (rest : List Char) : Prop :=
  ∀ char ∈ rest.head?, ¬ kind char

/-- Characters in front of others are the lexeme of a token: the characters of a symbol, as many
digits as there are, with a point among them or not, all of a word, or a quote and what follows up
to the next one or the end of the text. -/
def Lexeme : Token → List Char → List Char → Prop
  | .int n, chars, rest =>
      chars ≠ [] ∧ (∀ char ∈ chars, char.isDigit = true) ∧ n = Text.number chars ∧
        Stops (fun char => char.isDigit = true ∨ char = '.') rest
  | .float x, chars, rest =>
      ∃ whole part, chars = whole ++ '.' :: part ∧ whole ≠ [] ∧
        (∀ char ∈ whole ++ part, char.isDigit = true) ∧
        x = Numeral.ofDigits false (whole ++ part) (-(part.length : Int)) ∧
        Stops (fun char => char.isDigit = true) rest
  | .string text, chars, rest =>
      ∃ body, '"' ∉ body ∧ text = String.ofList (body.filter (· ≠ '\\')) ∧
        (chars = '"' :: (body ++ ['"']) ∨ chars = '"' :: body ∧ rest = [])
  | .identifier name, chars, rest =>
      IsName name ∧ chars = name.toList ∧ Stops (fun char => isWordChar char = true) rest
  | .keyword word, chars, rest =>
      chars = word.spelling.toList ∧ Stops (fun char => isWordChar char = true) rest
  | .symbol symbol, chars, rest =>
      chars = symbol.spelling.toList ∧ Stops (fun char => second? symbol = some char) rest
  | .newline, chars, _ => chars = [';'] ∨ chars = ['\n']
  | .eof, _, _ => False

theorem Lexeme.ne_nil {chars rest : List Char} (lexeme : Lexeme token chars rest) : chars ≠ [] := by
  cases token with
  | int n => exact lexeme.1
  | float x =>
      obtain ⟨whole, part, rfl, _⟩ := lexeme
      simp
  | string text =>
      obtain ⟨body, _, _, rfl | ⟨rfl, _⟩⟩ := lexeme <;> simp
  | identifier name =>
      obtain ⟨⟨⟨first, rest, spelt, _⟩, _⟩, rfl, _⟩ := lexeme
      simp [spelt]
  | keyword word =>
      obtain ⟨rfl, _⟩ := lexeme
      cases word <;> simp [Keyword.spelling]
  | symbol symbol =>
      obtain ⟨rfl, _⟩ := lexeme
      cases symbol <;> simp [Symbol.spelling]
  | newline => rcases lexeme with rfl | rfl <;> simp
  | eof => exact lexeme.elim

theorem lexeme_single {char : Char} (known : single? char = some token) (rest : List Char) :
    Lexeme token [char] rest := by
  unfold single? at known
  split at known
  all_goals cases known
  · exact .inl rfl
  · exact .inr rfl
  all_goals exact ⟨by simp [Symbol.spelling], by simp [Stops, second?]⟩

theorem lexeme_word {first : Char} {others rest : List Char} (letter : isLetter first = true)
    (word : ∀ char ∈ others, isWordChar char = true)
    (stops : Stops (fun char => isWordChar char = true) rest) :
    Lexeme (wordToken (String.ofList (first :: others))) (first :: others) rest := by
  unfold wordToken
  split
  next keyword known =>
    have spelt := List.find?_some known
    simp only [decide_eq_true_eq] at spelt
    exact ⟨by rw [spelt, String.toList_ofList], stops⟩
  next unknown =>
    refine ⟨⟨⟨first, others, String.toList_ofList, letter, word⟩, ?_⟩, String.toList_ofList.symm, stops⟩
    intro keyword same
    rw [← same] at unknown
    cases keyword <;> cases unknown

/-! ### Tokens in a text -/

/-- Tokens, the last one first, lie in the characters in front of others: each behind the text with
the tokens before it, and its lexeme there. -/
inductive Laid : List Char → List (Token × Mark) → List Char → Prop where
  | nil {before rest : List Char} : Laid before [] rest
  | cons {before chars between rest : List Char} {tokens : List (Token × Mark)} {token : Token}
      (earlier : Laid before tokens (chars ++ (between ++ rest)))
      (lexeme : Lexeme token chars (between ++ rest)) :
      Laid (before ++ (chars ++ between)) ((token, .behind before) :: tokens) rest

variable {before rest : List Char} {tokens : List (Token × Mark)}

theorem Laid.later {more : List Char} (laid : Laid before tokens (more ++ rest)) :
    Laid (before ++ more) tokens rest := by
  cases laid with
  | nil => exact .nil
  | @cons before chars between _ tokens token earlier lexeme =>
      rw [← List.append_assoc between more rest] at earlier lexeme
      rw [List.append_assoc, List.append_assoc]
      exact .cons earlier lexeme

theorem Laid.add {chars : List Char} (laid : Laid before tokens (chars ++ rest))
    (lexeme : Lexeme token chars rest) :
    Laid (before ++ chars) ((token, .behind before) :: tokens) rest := by
  have added : Laid (before ++ (chars ++ [])) ((token, .behind before) :: tokens) rest :=
    .cons laid lexeme
  rwa [List.append_nil] at added

/-- One of the tokens: its lexeme stands at its start, and those read later start behind it. -/
theorem Laid.split (laid : Laid before tokens rest) {newer older : List (Token × Mark)}
    {start : Mark} (among : tokens = newer ++ (token, start) :: older) :
    ∃ front chars between, before = front ++ (chars ++ between) ∧ start = .behind front ∧
      Lexeme token chars (between ++ rest) ∧
      ∀ later ∈ newer, (front.length + chars.length : Int) ≤ later.2.index := by
  induction laid generalizing newer with
  | nil => cases List.append_eq_nil_iff.mp among.symm |>.2
  | @cons before chars between rest tokens last earlier lexeme ih =>
      cases newer with
      | nil =>
          cases among
          exact ⟨before, chars, between, rfl, rfl, lexeme, by simp⟩
      | cons head newer =>
          obtain ⟨rfl, others⟩ := List.cons.inj among
          obtain ⟨front, inner, gap, rfl, began, read, behind⟩ := ih others
          refine ⟨front, inner, gap ++ (chars ++ between), by simp, began, by simpa using read, ?_⟩
          intro later member
          rcases List.mem_cons.mp member with rfl | member
          · simp only [Mark.behind, List.length_append]
            omega
          · exact behind later member

theorem Laid.index_lt (laid : Laid before tokens rest) {entry : Token × Mark}
    (among : entry ∈ tokens) : entry.2.index < before.length := by
  obtain ⟨newer, older, split⟩ := List.append_of_mem among
  obtain ⟨front, chars, between, rfl, began, lexeme, _⟩ := laid.split split
  have positive := List.length_pos_iff.mpr lexeme.ne_nil
  simp only [began, Mark.behind, List.length_append]
  omega

theorem Laid.pairwise (laid : Laid before tokens rest) :
    tokens.Pairwise fun later earlier => earlier.2.index < later.2.index := by
  induction laid with
  | nil => exact .nil
  | cons earlier lexeme ih => exact .cons (fun _ among => earlier.index_lt among) ih

/-- A string token begins with the last quote of the text. -/
def IsOpen (text : List Char) (token : Token) (start : Mark) : Prop :=
  ∃ content front body, token = .string content ∧ start = .behind front ∧
    text = front ++ '"' :: body ∧ '"' ∉ body

theorem Laid.not_isOpen (laid : Laid before tokens rest) (some : rest ≠ []) (more : List Char)
    {entry : Token × Mark} (among : entry ∈ tokens) : ¬ IsOpen (before ++ more) entry.1 entry.2 := by
  rintro ⟨content, front, body, string, began, last, noQuote⟩
  obtain ⟨newer, older, split⟩ := List.append_of_mem among
  obtain ⟨token, start⟩ := entry
  subst string began
  obtain ⟨other, chars, between, rfl, same, lexeme, _⟩ := laid.split split
  have length : front.length = other.length := Int.ofNat.inj (congrArg Mark.index same)
  obtain ⟨inner, _, _, rfl | ⟨_, nothing⟩⟩ := lexeme
  · rw [List.append_assoc] at last
    obtain ⟨_, follows⟩ := List.append_inj last length.symm
    refine noQuote ?_
    rw [← (List.cons.inj follows).2]
    simp
  · exact some (List.append_eq_nil_iff.mp nothing).2

/-! ### What the reader keeps to -/

def Mode.isIdle : Mode → Bool
  | .between | .commentStart | .lineComment | .blockComment | .blockSlash => true
  | _ => false

/-- A token under way began at a mark, and these characters of it have been read. -/
inductive Underway : Mode → Mark → List Char → Prop where
  | digits {start : Mark} {read : List Char} (some : read ≠ [])
      (digits : ∀ char ∈ read, char.isDigit = true) : Underway (.digits start read) start read.reverse
  | fraction {start : Mark} {whole read : List Char} (some : whole ≠ [])
      (digits : ∀ char ∈ whole ++ read, char.isDigit = true) :
      Underway (.fraction start whole read) start (whole.reverse ++ '.' :: read.reverse)
  | word {start : Mark} {first : Char} {read : List Char} (letter : isLetter first = true)
      (word : ∀ char ∈ read, isWordChar char = true) :
      Underway (.word start (read ++ [first])) start (first :: read.reverse)
  | quote {start : Mark} {body : List Char} (inside : '"' ∉ body) :
      Underway (.quote start (body.filter (· ≠ '\\')).reverse) start ('"' :: body)
  | bang {start : Mark} : Underway (.bang start) start ['!']
  | assign {start : Mark} : Underway (.assign start) start ['=']
  | less {start : Mark} : Underway (.less start) start ['<']
  | greater {start : Mark} : Underway (.greater start) start ['>']
  | slash {start : Mark} : Underway (.slash start) start ['/']
  | minus {start : Mark} : Underway (.minus start) start ['-']

/-- The tokens read so far lie in the text read so far, in front of the one under way. -/
inductive Tracks (before : List Char) (tokens : List (Token × Mark)) : Mode → Prop where
  | idle {mode : Mode} (idle : mode.isIdle = true) (laid : ∀ rest, Laid before tokens rest) :
      Tracks before tokens mode
  | busy {mode : Mode} {front chars : List Char} (whole : before = front ++ chars)
      (underway : Underway mode (.behind front) chars)
      (laid : ∀ rest, Laid front tokens (chars ++ rest)) : Tracks before tokens mode

/-- While reading goes on, the reader stands behind the text read so far. -/
def State.Tracked (state : State) (before : List Char) : Prop :=
  ∀ mode, state.status = .reading mode →
    state.mark = .behind before ∧ Tracks before state.tokens mode

theorem opening?_underway {mark : Mark} {char : Char} (known : opening? mark char = some mode) :
    mode.isIdle = true ∨ Underway mode mark [char] := by
  unfold opening? at known
  split at known
  · cases known
    exact .inl rfl
  split at known
  · cases known
    exact .inl rfl
  split at known
  · cases known
    exact .inr (@Underway.digits mark [char] (List.cons_ne_nil _ _) (by simpa using ‹_›))
  split at known
  · cases known
    exact .inr (@Underway.word mark char [] ‹_› (List.forall_mem_nil _))
  split at known
  · cases known
    subst char
    exact .inr (@Underway.quote mark [] List.not_mem_nil)
  split at known
  · cases known
    subst char
    exact .inr .minus
  split at known
  · cases known
    subst char
    exact .inr .slash
  split at known
  · cases known
    subst char
    exact .inr .bang
  split at known
  · cases known
    subst char
    exact .inr .assign
  split at known
  · cases known
    subst char
    exact .inr .less
  split at known
  · cases known
    subst char
    exact .inr .greater
  · cases known

variable {state : State} {char : Char}

theorem State.tracked_begin (mark : state.mark = .behind before)
    (laid : ∀ rest, Laid before state.tokens (char :: rest)) :
    (state.begin char).Tracked (before ++ [char]) := by
  have after : state.mark.after char = .behind (before ++ [char]) := by
    rw [mark, Mark.behind_snoc]
  unfold State.begin
  split
  next token known =>
    rintro _ ⟨⟩
    refine ⟨after, .idle rfl fun rest => ?_⟩
    rw [mark]
    exact (laid rest).add (lexeme_single known rest)
  next =>
    split
    next mode known =>
      rintro _ ⟨⟩
      refine ⟨after, ?_⟩
      rw [mark] at known
      rcases opening?_underway known with idle | underway
      · exact .idle idle fun rest => (laid rest).later
      · exact .busy rfl underway laid
    next =>
      rintro _ ⟨⟩

section

variable {front chars : List Char} {token : Token}

section

variable (mark : state.mark = .behind (front ++ chars))
  (laid : ∀ rest, Laid front state.tokens (chars ++ rest))

include mark laid

theorem State.tracked_emit (lexeme : ∀ rest, Lexeme token chars (char :: rest)) :
    ((state.emit token (.behind front)).begin char).Tracked (front ++ chars ++ [char]) :=
  State.tracked_begin mark fun rest => (laid (char :: rest)).add (lexeme rest)

theorem State.tracked_close (lexeme : ∀ rest, Lexeme token (chars ++ [char]) rest) :
    (state.close token (.behind front) char).Tracked (front ++ chars ++ [char]) := by
  rintro _ ⟨⟩
  refine ⟨by rw [Mark.behind_snoc, ← mark]; rfl, .idle rfl fun rest => ?_⟩
  have before := laid (char :: rest)
  rw [List.append_cons] at before
  have added := before.add (lexeme rest)
  rwa [← List.append_assoc] at added

theorem State.tracked_stay (underway : Underway mode (.behind front) (chars ++ [char])) :
    (state.stay mode char).Tracked (front ++ chars ++ [char]) := by
  rintro _ ⟨⟩
  refine ⟨by rw [Mark.behind_snoc, ← mark]; rfl, .busy (List.append_assoc ..) underway fun rest => ?_⟩
  rw [List.append_assoc]
  exact laid (char :: rest)

end

theorem State.tracked_idle (mark : state.mark = .behind before)
    (laid : ∀ rest, Laid before state.tokens rest) (idle : mode.isIdle = true) :
    (state.stay mode char).Tracked (before ++ [char]) := by
  rintro _ ⟨⟩
  exact ⟨by rw [Mark.behind_snoc, ← mark]; rfl, .idle idle fun rest => (laid (char :: rest)).later⟩

/-- A symbol is the long one if its second character follows, and else the short one. -/
theorem State.tracked_symbol {second : Char} {long short : Symbol}
    (mark : state.mark = .behind (front ++ short.spelling.toList))
    (laid : ∀ rest, Laid front state.tokens (short.spelling.toList ++ rest))
    (goesOn : second? short = some second) (ends : second? long = none)
    (spelt : long.spelling.toList = short.spelling.toList ++ [second]) :
    (state.symbol (.behind front) second long short char).Tracked
      (front ++ short.spelling.toList ++ [char]) := by
  unfold State.symbol
  split
  next same =>
    subst same
    refine State.tracked_close mark laid fun rest => ⟨spelt.symm, ?_⟩
    simp [Stops, ends]
  next other =>
    refine State.tracked_emit mark laid fun rest => ⟨rfl, ?_⟩
    simpa [Stops, goesOn, eq_comm] using other

end

/-- A character goes on with a token under way, ends it, or begins the next. -/
theorem State.tracked_feedIn (mark : state.mark = .behind before)
    (tracks : Tracks before state.tokens mode) :
    (state.feedIn char mode).Tracked (before ++ [char]) := by
  cases tracks with
  | idle idle laid =>
      cases mode with
      | between => exact State.tracked_begin mark fun rest => laid (char :: rest)
      | commentStart =>
          simp only [State.feedIn]
          split
          · exact State.tracked_idle mark laid rfl
          · split <;> exact State.tracked_idle mark laid rfl
      | lineComment => exact State.tracked_idle mark laid (by split <;> rfl)
      | blockComment => exact State.tracked_idle mark laid (by split <;> rfl)
      | blockSlash =>
          simp only [State.feedIn]
          split
          · exact State.tracked_idle mark laid rfl
          · split <;> exact State.tracked_idle mark laid rfl
      | _ => cases idle
  | @busy front _ whole underway laid =>
      subst whole
      cases underway with
      | @digits _ read some digits =>
          simp only [State.feedIn]
          split
          next digit =>
            refine State.tracked_stay mark laid ?_
            rw [← List.reverse_cons]
            exact .digits (List.cons_ne_nil _ _) (List.forall_mem_cons.mpr ⟨digit, digits⟩)
          next noDigit =>
            split
            next dot =>
              subst dot
              exact State.tracked_stay mark laid (.fraction some (by simpa using digits))
            next noDot =>
              unfold State.emitInt
              split
              · rintro _ ⟨⟩
              · refine State.tracked_emit mark laid fun rest => ⟨by simpa using some, ?_, rfl, ?_⟩
                · simpa using digits
                · simp [Stops, noDigit, noDot]
      | @fraction _ whole read some digits =>
          simp only [State.feedIn]
          split
          next digit =>
            refine State.tracked_stay mark laid ?_
            rw [List.append_assoc, List.cons_append, ← List.reverse_cons]
            exact .fraction some (by simpa [or_imp, forall_and, digit] using digits)
          next noDigit =>
            refine State.tracked_emit mark laid fun rest =>
              ⟨whole.reverse, read.reverse, rfl, by simpa using some, ?_, ?_, ?_⟩
            · simpa using digits
            · rw [fractionValue, List.length_reverse]
            · simpa [Stops] using noDigit
      | @word _ first read letter word =>
          simp only [State.feedIn]
          split
          next goesOn =>
            refine State.tracked_stay mark laid ?_
            rw [List.cons_append, ← List.reverse_cons, ← List.cons_append]
            exact .word letter (List.forall_mem_cons.mpr ⟨goesOn, word⟩)
          next stops =>
            rw [List.reverse_append]
            refine State.tracked_emit mark laid fun rest => lexeme_word letter (by simpa using word) ?_
            simpa [Stops] using stops
      | @quote _ body inside =>
          simp only [State.feedIn]
          split
          next quote =>
            subst quote
            refine State.tracked_close mark laid fun rest => ⟨body, inside, ?_, .inl rfl⟩
            rw [List.reverse_reverse]
          next noQuote =>
            have inside : '"' ∉ body ++ [char] := by simpa [eq_comm] using ⟨inside, noQuote⟩
            have underway := @Underway.quote (.behind front) (body ++ [char]) inside
            split
            next slash =>
              subst slash
              refine State.tracked_stay mark laid ?_
              simpa using underway
            next noSlash =>
              refine State.tracked_stay mark laid ?_
              simpa [noSlash] using underway
      | bang =>
          simp only [State.feedIn]
          split
          next same =>
            subst same
            exact State.tracked_close mark laid fun rest =>
              ⟨by simp [Symbol.spelling], by simp [Stops, second?]⟩
          next => rintro _ ⟨⟩
      | assign => exact State.tracked_symbol mark laid rfl rfl (by simp [Symbol.spelling])
      | less => exact State.tracked_symbol mark laid rfl rfl (by simp [Symbol.spelling])
      | greater => exact State.tracked_symbol mark laid rfl rfl (by simp [Symbol.spelling])
      | slash => exact State.tracked_symbol mark laid rfl rfl (by simp [Symbol.spelling])
      | minus => exact State.tracked_symbol mark laid rfl rfl (by simp [Symbol.spelling])

theorem State.Tracked.feed (tracked : state.Tracked before) :
    (state.feed char).Tracked (before ++ [char]) := by
  unfold State.feed
  split
  next mode reading =>
    obtain ⟨mark, tracks⟩ := tracked mode reading
    exact State.tracked_feedIn mark tracks
  next stopped => exact fun mode reading => absurd reading (stopped mode)

theorem State.Tracked.foldl (tracked : state.Tracked before) (chars : List Char) :
    (chars.foldl State.feed state).Tracked (before ++ chars) := by
  induction chars generalizing state before with
  | nil => rwa [List.append_nil]
  | cons char chars ih =>
      rw [List.append_cons]
      exact ih tracked.feed

/-! ### The end of the text -/

/-- All tokens lie in the text, and the reader stands at its end, or one step further if a string
was left open. -/
structure Finished (text : List Char) (state : State) : Prop where
  laid : Laid text state.tokens []
  ending : (state.mark.index = text.length ∧ ∀ entry ∈ state.tokens, ¬ IsOpen text entry.1 entry.2) ∨
    state.mark.index = text.length + 1 ∧ ∃ entry ∈ state.tokens, IsOpen text entry.1 entry.2

section

variable {front chars : List Char}

theorem State.finished_emit (mark : state.mark = .behind (front ++ chars))
    (laid : ∀ rest, Laid front state.tokens (chars ++ rest)) (lexeme : Lexeme token chars [])
    (other : ∀ content, token ≠ .string content) :
    Finished (front ++ chars) (state.emit token (.behind front)) := by
  refine ⟨(laid []).add lexeme, .inl ⟨congrArg Mark.index mark, ?_⟩⟩
  intro entry among
  rcases List.mem_cons.mp among with rfl | among
  · rintro ⟨content, _, _, same, _⟩
    exact other content same
  · exact (laid [' ']).not_isOpen (by simp) chars among

theorem State.finished_symbol {symbol : Symbol}
    (mark : state.mark = .behind (front ++ symbol.spelling.toList))
    (laid : ∀ rest, Laid front state.tokens (symbol.spelling.toList ++ rest)) :
    Finished (front ++ symbol.spelling.toList) (state.emit (.symbol symbol) (.behind front)) :=
  State.finished_emit mark laid ⟨rfl, by simp [Stops]⟩ fun _ => Token.noConfusion

end

theorem State.finished_finishIn {text : List Char} {final : Mode} (mark : state.mark = .behind text)
    (tracks : Tracks text state.tokens mode)
    (reading : (state.finishIn mode).status = .reading final) :
    Finished text (state.finishIn mode) := by
  cases tracks with
  | idle idle laid =>
      have finished : Finished text state :=
        ⟨laid [], .inl ⟨congrArg Mark.index mark, fun entry among open_ => by
          have closed := (laid [' ']).not_isOpen (by simp) [] among
          rw [List.append_nil] at closed
          exact closed open_⟩⟩
      cases mode with
      | between => exact finished
      | commentStart => exact finished
      | lineComment => exact finished
      | blockComment => cases reading
      | blockSlash => cases reading
      | _ => cases idle
  | busy whole underway laid =>
      subst whole
      cases underway with
      | @digits _ read some digits =>
          simp only [State.finishIn, State.emitInt] at reading ⊢
          split at reading
          · cases reading
          next few =>
            rw [if_neg few]
            refine State.finished_emit mark laid ⟨by simpa using some, ?_, rfl, by simp [Stops]⟩
              fun _ => Token.noConfusion
            simpa using digits
      | @fraction _ whole read some digits =>
          refine State.finished_emit mark laid
            ⟨whole.reverse, read.reverse, rfl, by simpa using some, by simpa using digits, ?_,
              by simp [Stops]⟩ fun _ => Token.noConfusion
          rw [fractionValue, List.length_reverse]
      | @word _ first read letter word =>
          simp only [State.finishIn, List.reverse_append]
          refine State.finished_emit mark laid (lexeme_word letter (by simpa using word) (by simp [Stops]))
            fun content same => ?_
          unfold wordToken at same
          split at same <;> cases same
      | @quote front body inside =>
          simp only [State.finishIn, List.reverse_reverse]
          refine ⟨(laid []).add ⟨body, inside, rfl, .inr ⟨rfl, rfl⟩⟩, .inr ⟨?_, ?_⟩⟩
          · rw [Mark.next_index, mark]
            rfl
          · exact ⟨_, List.mem_cons_self, _, _, body, rfl, rfl, rfl, inside⟩
      | bang => cases reading
      | assign => exact @State.finished_symbol state _ .assign mark laid
      | less => exact @State.finished_symbol state _ .less mark laid
      | greater => exact @State.finished_symbol state _ .greater mark laid
      | slash => exact @State.finished_symbol state _ .divide mark laid
      | minus => exact @State.finished_symbol state _ .minus mark laid

theorem tracked_start (text : List Char) : (text.foldl State.feed .start).Tracked text := by
  have start : State.start.Tracked [] := by
    rintro _ ⟨⟩
    exact ⟨rfl, .idle rfl fun _ => .nil⟩
  exact start.foldl text

theorem finished_scan {text : List Char} (reading : (scan text).status = .reading mode) :
    Finished text (scan text) := by
  unfold scan State.finish at reading ⊢
  split at reading
  next last status =>
    obtain ⟨mark, tracks⟩ := tracked_start text last status
    exact State.finished_finishIn mark tracks reading
  next stopped => exact absurd reading (stopped mode)

theorem read_ends {source : Source} {placed : List Placed} (known : read source = .tokens placed) :
    ∃ words, placed.map Placed.token = words ++ [.eof] ∧ .eof ∉ words := by
  simp only [read] at known
  split at known
  next mode reading =>
    cases known
    refine ⟨((scan source.text.toList).tokens.map Prod.fst).reverse, ?_, ?_⟩
    · rw [List.map_map, List.map_reverse, List.map_cons, List.reverse_cons]
      rfl
    · intro ended
      obtain ⟨⟨_, start⟩, member, rfl⟩ := List.mem_map.mp (List.mem_reverse.mp ended)
      obtain ⟨newer, older, split⟩ := List.append_of_mem member
      obtain ⟨_, _, _, _, _, lexeme, _⟩ := (finished_scan reading).laid.split split
      exact lexeme
  next => cases known
  next => cases known

/-- Tokens start where they should.  Let a text be read into tokens.  Their starts grow, the last
one is the end of the text, and each of the others starts where its lexeme does, with the line and
the column of this place; the tokens behind it start behind its lexeme.  The end of the text is
behind all characters, and one step further if the last quote begins a string. -/
theorem starts_of_read (source : Source) (tokens : List Placed)
    (known : read source = .tokens tokens) :
    ∃ (words : List Placed) (final : Placed), tokens = words ++ [final] ∧ final.token = .eof ∧
      (tokens.Pairwise fun earlier later => earlier.start.mark.index < later.start.mark.index) ∧
      (∀ earlier placed later, words = earlier ++ placed :: later →
        ∃ before chars rest, source.text.toList = before ++ (chars ++ rest) ∧
          placed.start.mark = .behind before ∧ Lexeme placed.token chars rest ∧
          ∀ next ∈ later ++ [final],
            (before.length + chars.length : Int) ≤ next.start.mark.index) ∧
      (final.start.mark.index = source.text.toList.length ∨
        final.start.mark.index = source.text.toList.length + 1) ∧
      (final.start.mark.index = source.text.toList.length + 1 ↔
        ∃ placed ∈ words, IsOpen source.text.toList placed.token placed.start.mark) := by
  simp only [read] at known
  split at known
  next mode reading =>
    cases known
    obtain ⟨laid, ending⟩ := finished_scan reading
    generalize scan source.text.toList = state at laid ending
    generalize source.text.toList = text at laid ending
    have behind : (text.length : Int) ≤ state.mark.index := by
      rcases ending with ⟨index, _⟩ | ⟨index, _⟩ <;> omega
    refine ⟨_, _, by rw [List.reverse_cons, List.map_append]; rfl, rfl, ?_, ?_, ?_, ?_⟩
    · rw [List.pairwise_map, List.pairwise_reverse]
      exact .cons (fun entry among => Int.lt_of_lt_of_le (laid.index_lt among) behind) laid.pairwise
    · intro earlier placed later split
      obtain ⟨older, others, cut, rfl, mapped⟩ := List.map_eq_append_iff.mp split
      obtain ⟨⟨token, start⟩, newer, rfl, rfl, rfl⟩ := List.map_eq_cons_iff.mp mapped
      have among : state.tokens = newer.reverse ++ (token, start) :: older.reverse := by
        rw [← List.reverse_reverse state.tokens, cut]
        simp
      obtain ⟨before, chars, rest, rfl, began, lexeme, later⟩ := laid.split among
      rw [List.append_nil] at lexeme
      refine ⟨before, chars, rest, rfl, began, lexeme, fun next member => ?_⟩
      rcases List.mem_append.mp member with member | member
      · obtain ⟨entry, inside, rfl⟩ := List.mem_map.mp member
        exact later entry (List.mem_reverse.mpr inside)
      · rw [List.mem_singleton.mp member]
        simp only [List.length_append] at behind
        change _ ≤ state.mark.index
        omega
    · exact ending.imp And.left And.left
    · rcases ending with ⟨index, closed⟩ | ⟨index, entry, among, isOpen⟩
      · refine ⟨fun further => ?_, ?_⟩
        · change state.mark.index = _ at further
          omega
        · rintro ⟨placed, member, isOpen⟩
          obtain ⟨entry, inside, rfl⟩ := List.mem_map.mp member
          exact absurd isOpen (closed entry (List.mem_reverse.mp inside))
      · exact ⟨fun _ => ⟨_, List.mem_map_of_mem (List.mem_reverse.mpr among), isOpen⟩, fun _ => index⟩
  next => cases known
  next => cases known

/-- A string that is left open behind a line end inside another one. -/
theorem starts_of_read_open :
    ∃ tokens, read { name := "<stdin>", text := "a\"\n\"<=\"b" } = .tokens tokens ∧
      ∃ (words : List Placed) (final : Placed), tokens = words ++ [final] ∧
        final.start.mark.index = 9 ∧
        ∃ placed ∈ words, IsOpen "a\"\n\"<=\"b".toList placed.token placed.start.mark := by
  have known : read { name := "<stdin>", text := "a\"\n\"<=\"b" } = .tokens _ := rfl
  obtain ⟨words, final, cut, _, _, _, _, further⟩ := starts_of_read _ _ known
  have last := congrArg (fun tokens => tokens.getLast?.map fun placed => placed.start.mark.index) cut
  rw [List.getLast?_concat] at last
  have index : final.start.mark.index = 9 := (Option.some.inj last).symm
  exact ⟨_, known, words, final, cut, index, further.mp index⟩

end Lexer

end Lingo
