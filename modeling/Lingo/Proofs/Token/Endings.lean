/-
How reading a text crashes.

A whole number of too many digits crashes the reader.  A crash leaves the number in the text: the
digits that the reader took together stand behind the characters that it had read before them.
-/

import Lingo.Proofs.Token.Spelling

namespace Lingo.Lexer

/-! ### What a character does to a number -/

def Status.isPlain : Status → Bool
  | .reading (.digits _ _) => false
  | .crashed _ => false
  | _ => true

/-- What a character can make of a mode: it opens a whole number, goes on with one, ends one of
too many digits, or does none of this. -/
inductive Turn (char : Char) : Mode → Status → Prop
  | opened {mode : Mode} (mark : Mark) (digit : char.isDigit = true) :
      Turn char mode (.reading (.digits mark [char]))
  | collected (mark : Mark) (read : List Char) (digit : char.isDigit = true) :
      Turn char (.digits mark read) (.reading (.digits mark (char :: read)))
  | overflowed (mark : Mark) (read : List Char) (other : char.isDigit = false ∧ char ≠ '.')
      (long : Numeral.digitLimit < read.length) :
      Turn char (.digits mark read) (.crashed .unreadable)
  | plain {mode : Mode} {status : Status} (known : status.isPlain = true) :
      Turn char mode status

theorem turn_choice {char : Char} {test : Prop} [Decidable test] {mode here : Mode}
    {rest : Option Mode} (now : test → Turn char mode (.reading here))
    (later : ∀ opened, rest = some opened → Turn char mode (.reading opened)) :
    ∀ opened, (if test then some here else rest) = some opened →
      Turn char mode (.reading opened) := by
  intro opened known
  split at known
  next holds =>
    cases known
    exact now holds
  next => exact later opened known

theorem turn_opening? (mark : Mark) (char : Char) (mode : Mode) :
    ∀ opened, opening? mark char = some opened → Turn char mode (.reading opened) := by
  unfold opening?
  refine turn_choice (fun _ => .plain rfl) (turn_choice (fun _ => .plain rfl) ?_)
  refine turn_choice (fun digit => .opened mark digit) ?_
  repeat refine turn_choice (fun _ => .plain rfl) ?_
  intro opened none
  cases none

theorem State.turn_begin (state : State) (char : Char) (mode : Mode) :
    Turn char mode (state.begin char).status := by
  unfold State.begin
  split
  next => exact .plain rfl
  next =>
    split
    next opened known => exact turn_opening? _ char mode opened known
    next => exact .plain rfl

theorem State.turn_emitInt (state : State) (char : Char) (start : Mark) (read : List Char)
    (other : char.isDigit = false ∧ char ≠ '.') :
    Turn char (.digits start read) ((state.emitInt start read).beginIfReading char).status := by
  unfold State.emitInt
  split
  next long => exact .overflowed start read other long
  next => exact (state.emit _ start).turn_begin char _

theorem State.turn_symbol (state : State) (start : Mark) (second : Char) (long short : Symbol)
    (char : Char) (mode : Mode) :
    Turn char mode (state.symbol start second long short char).status := by
  unfold State.symbol
  split
  · exact .plain rfl
  · exact (state.emit _ start).turn_begin char mode

theorem State.turn_feedIn (state : State) (char : Char) (mode : Mode) :
    Turn char mode (state.feedIn char mode).status := by
  cases mode with
  | between => exact state.turn_begin char _
  | digits start read =>
      simp only [State.feedIn]
      split
      next digit => exact .collected start read digit
      next other =>
        split
        next => exact .plain rfl
        next point => exact state.turn_emitInt char start read ⟨Bool.eq_false_iff.mpr other, point⟩
  | fraction start whole read =>
      simp only [State.feedIn]
      split
      · exact .plain rfl
      · exact (state.emit _ start).turn_begin char _
  | word start read =>
      simp only [State.feedIn]
      split
      · exact .plain rfl
      · exact (state.emit _ start).turn_begin char _
  | quote start read =>
      simp only [State.feedIn]
      split
      · exact .plain rfl
      · split <;> exact .plain rfl
  | bang start =>
      simp only [State.feedIn]
      split <;> exact .plain rfl
  | assign start => exact state.turn_symbol start _ _ _ char _
  | less start => exact state.turn_symbol start _ _ _ char _
  | greater start => exact state.turn_symbol start _ _ _ char _
  | slash start => exact state.turn_symbol start _ _ _ char _
  | minus start => exact state.turn_symbol start _ _ _ char _
  | commentStart =>
      simp only [State.feedIn]
      split
      · exact .plain rfl
      · split <;> exact .plain rfl
  | lineComment =>
      simp only [State.feedIn, State.stay]
      split <;> exact .plain rfl
  | blockComment =>
      simp only [State.feedIn, State.stay]
      split <;> exact .plain rfl
  | blockSlash =>
      simp only [State.feedIn]
      split
      · exact .plain rfl
      · split <;> exact .plain rfl

/-! ### Numbers of too many digits -/

/-- Digits that the reader takes together, behind characters that it has read before them: the
first of them opens a number. -/
structure DigitRun (before digits : List Char) : Prop where
  digit : ∀ char ∈ digits, char.isDigit = true
  opens : ∃ first rest mark, digits = first :: rest ∧
    ((before ++ [first]).foldl State.feed .start).status = .reading (.digits mark [first])

/-- A whole number of more digits than can be read.  Neither a digit nor a point follows it. -/
structure Overlong (before digits after : List Char) : Prop where
  run : DigitRun before digits
  long : Numeral.digitLimit < digits.length
  whole : ∀ next ∈ after.head?, next.isDigit = false ∧ next ≠ '.'

theorem DigitRun.single {before : List Char} {first : Char} {mark : Mark}
    (digit : first.isDigit = true)
    (opened : ((before ++ [first]).foldl State.feed .start).status =
      .reading (.digits mark [first])) : DigitRun before [first] where
  digit := by
    intro char member
    rw [List.mem_singleton.mp member]
    exact digit
  opens := ⟨first, [], mark, rfl, opened⟩

theorem DigitRun.snoc {before digits : List Char} (run : DigitRun before digits) {char : Char}
    (digit : char.isDigit = true) : DigitRun before (digits ++ [char]) where
  digit := by
    intro other member
    rcases List.mem_append.mp member with known | last
    · exact run.digit other known
    · rw [List.mem_singleton.mp last]
      exact digit
  opens := by
    obtain ⟨first, rest, mark, rfl, opened⟩ := run.opens
    exact ⟨first, rest ++ [char], mark, rfl, opened⟩

theorem DigitRun.status_eq {before digits : List Char} (run : DigitRun before digits) :
    ∃ mark, ((before ++ digits).foldl State.feed .start).status =
      .reading (.digits mark digits.reverse) := by
  obtain ⟨first, rest, mark, rfl, opened⟩ := run.opens
  have collects : ∀ char ∈ rest, ∀ (state : State) (read : List Char),
      state.feedIn char (.digits mark read) = state.stay (.digits mark (char :: read)) char := by
    intro char member state read
    simp only [State.feedIn, if_pos (run.digit char (List.mem_cons_of_mem first member))]
  have split : before ++ first :: rest = (before ++ [first]) ++ rest := by
    rw [List.append_assoc, List.singleton_append]
  cases reached : (before ++ [first]).foldl State.feed .start with
  | mk status place tokens =>
      rw [reached] at opened
      obtain ⟨after, collected⟩ :=
        foldl_feed_collects (Mode.digits mark) tokens rest collects place [first]
      refine ⟨mark, ?_⟩
      rw [split, List.foldl_append, reached, show status = _ from opened, collected,
        List.reverse_cons]

/-- What the status of the reader says about the characters read so far. -/
def Status.Explained (chars : List Char) : Status → Prop
  | .reading (.digits _ read) =>
      ∃ before, chars = before ++ read.reverse ∧ DigitRun before read.reverse
  | .crashed cause =>
      cause = .unreadable ∧ ∃ before digits next after,
        chars = before ++ (digits ++ next :: after) ∧ Overlong before digits (next :: after)
  | _ => True

theorem Status.explained_of_isPlain (chars : List Char) {status : Status}
    (plain : status.isPlain = true) : status.Explained chars := by
  unfold Status.isPlain at plain
  unfold Status.Explained
  split at plain
  · exact absurd plain Bool.false_ne_true
  · exact absurd plain Bool.false_ne_true
  · trivial

theorem explained_snoc {chars : List Char} (char : Char)
    (explained : (chars.foldl State.feed .start).status.Explained chars) :
    ((chars ++ [char]).foldl State.feed .start).status.Explained (chars ++ [char]) := by
  have fed : (chars ++ [char]).foldl State.feed .start =
      (chars.foldl State.feed .start).feed char := List.foldl_append
  cases status : (chars.foldl State.feed .start).status with
  | refused cause start stop =>
      rw [fed, State.feed, status]
      simp only [status]
      trivial
  | crashed cause =>
      rw [status] at explained
      obtain ⟨unreadable, before, digits, next, after, rfl, overlong⟩ := explained
      rw [fed, State.feed, status]
      simp only [status]
      refine ⟨unreadable, before, digits, next, after ++ [char], ?_, ?_⟩
      · simp only [List.append_assoc, List.cons_append]
      · exact ⟨overlong.run, overlong.long, overlong.whole⟩
  | reading mode =>
      rw [status] at explained
      have taken : (chars.foldl State.feed .start).feed char =
          (chars.foldl State.feed .start).feedIn char mode := by
        simp only [State.feed, status]
      have turn := (chars.foldl State.feed .start).turn_feedIn char mode
      rw [← taken, ← fed] at turn
      generalize after : ((chars ++ [char]).foldl State.feed .start).status = reached at turn ⊢
      cases turn with
      | opened mark digit => exact ⟨chars, rfl, .single digit after⟩
      | collected mark read digit =>
          obtain ⟨before, rfl, run⟩ := explained
          refine ⟨before, ?_, ?_⟩
          · rw [List.reverse_cons, List.append_assoc]
          · rw [List.reverse_cons]
            exact run.snoc digit
      | overflowed mark read other long =>
          obtain ⟨before, rfl, run⟩ := explained
          refine ⟨rfl, before, read.reverse, char, [], ?_, ?_⟩
          · rw [List.append_assoc]
          · refine ⟨run, ?_, ?_⟩
            · rw [List.length_reverse]
              exact long
            · intro next head
              cases head
              exact other
      | plain known => exact Status.explained_of_isPlain _ known

/-- After any characters the status of the reader is explained by them. -/
theorem explained_foldl (chars : List Char) :
    (chars.foldl State.feed .start).status.Explained chars := by
  -- the explanation is about all characters so far, so the induction keeps those in front
  have run : ∀ (rest front : List Char),
      (front.foldl State.feed .start).status.Explained front →
        ((front ++ rest).foldl State.feed .start).status.Explained (front ++ rest) := by
    intro rest
    induction rest with
    | nil =>
        intro front explained
        rw [List.append_nil]
        exact explained
    | cons char rest ih =>
        intro front explained
        have longer := ih (front ++ [char]) (explained_snoc char explained)
        rw [List.append_assoc, List.singleton_append] at longer
        exact longer
  exact run chars [] trivial

theorem State.finish_crashed {state : State} {cause : Crash}
    (crashed : state.finish.status = .crashed cause) :
    state.status = .crashed cause ∨
      cause = .unreadable ∧ ∃ mark read,
        state.status = .reading (.digits mark read) ∧ Numeral.digitLimit < read.length := by
  cases status : state.status with
  | refused cause start stop =>
      rw [State.finish, status] at crashed
      simp only [status] at crashed
      cases crashed
  | crashed cause =>
      rw [State.finish, status] at crashed
      simp only [status] at crashed
      exact .inl crashed
  | reading mode =>
      rw [State.finish, status] at crashed
      cases mode with
      | digits start read =>
          simp only [State.finishIn, State.emitInt] at crashed
          split at crashed
          next long =>
            cases crashed
            exact .inr ⟨rfl, start, read, rfl, long⟩
          next => cases crashed
      | between =>
          simp only [State.finishIn, status] at crashed
          cases crashed
      | commentStart =>
          simp only [State.finishIn, status] at crashed
          cases crashed
      | lineComment =>
          simp only [State.finishIn, status] at crashed
          cases crashed
      | _ => cases crashed

theorem State.status_foldl_of_crashed {state : State} {cause : Crash}
    (crashed : state.status = .crashed cause) (chars : List Char) :
    (chars.foldl State.feed state).status = .crashed cause := by
  induction chars generalizing state with
  | nil => exact crashed
  | cons char chars ih =>
      apply ih
      simp only [State.feed, crashed]

theorem crashed_of_overlong {before digits after : List Char}
    (overlong : Overlong before digits after) :
    (scan (before ++ (digits ++ after))).status = .crashed .unreadable := by
  obtain ⟨mark, held⟩ := overlong.run.status_eq
  have long : Numeral.digitLimit < digits.reverse.length := by
    rw [List.length_reverse]
    exact overlong.long
  rw [scan, ← List.append_assoc, List.foldl_append]
  generalize (before ++ digits).foldl State.feed .start = state at held ⊢
  -- the number is only converted when it is over: at the end of the text, or at the character
  -- that is not part of it
  cases after with
  | nil =>
      simp only [List.foldl_nil, State.finish, held, State.finishIn, State.emitInt, if_pos long]
  | cons next after =>
      obtain ⟨other, point⟩ := overlong.whole next rfl
      have stuck : (state.feed next).status = .crashed .unreadable := by
        simp only [State.feed, held, State.feedIn, other, if_neg point, State.emitInt, if_pos long,
          State.beginIfReading, Bool.false_eq_true, if_false]
      have last := State.status_foldl_of_crashed stuck after
      rw [List.foldl_cons, State.finish, last]
      exact last

/-- Reading crashes exactly for a text with a whole number of too many digits. -/
theorem read_crashed_iff (source : Source) (cause : Crash) :
    read source = .crashed cause ↔
      cause = .unreadable ∧ ∃ before digits after,
        source.text.toList = before ++ (digits ++ after) ∧ Overlong before digits after := by
  have status : read source = .crashed cause ↔
      (scan source.text.toList).status = .crashed cause := by
    simp only [read]
    split
    next known => simp only [known, reduceCtorEq]
    next known => simp only [known, reduceCtorEq]
    next known => simp only [known, Result.crashed.injEq, Status.crashed.injEq]
  rw [status]
  constructor
  · intro crashed
    have explained := explained_foldl source.text.toList
    rcases State.finish_crashed crashed with earlier | ⟨unreadable, mark, read, held, long⟩
    · rw [earlier] at explained
      obtain ⟨unreadable, before, digits, next, after, spelt, overlong⟩ := explained
      exact ⟨unreadable, before, digits, next :: after, spelt, overlong⟩
    · rw [held] at explained
      obtain ⟨before, spelt, run⟩ := explained
      refine ⟨unreadable, before, read.reverse, [], ?_, run, ?_, fun _ none => by cases none⟩
      · rw [List.append_nil]
        exact spelt
      · rw [List.length_reverse]
        exact long
  · rintro ⟨rfl, before, digits, after, spelt, overlong⟩
    rw [spelt]
    exact crashed_of_overlong overlong

end Lingo.Lexer
