/-
Texts read line by line.

Outside strings and comments a line end closes the token under way in the way the end of the text
does.  What is read behind it has other tokens before it and stands elsewhere, and is the same
otherwise.
-/

import Lingo.Proofs.Token.Escapes
import Lingo.Proofs.Token.Places

namespace Lingo

def Mark.moved (mark : Mark) (chars lines : Int) : Mark :=
  { index := mark.index + chars, line := mark.line + lines, column := mark.column }

theorem Mark.moved_after (mark : Mark) (chars lines : Int) (char : Char) :
    (mark.moved chars lines).after char = (mark.after char).moved chars lines := by
  simp only [moved, after, advance]
  split
  · simp only [mk.injEq, and_true]
    omega
  · simp only [mk.injEq, and_true]
    omega

namespace Lexer

variable {state : State} {char : Char} {quotes : Nat}

/-! ### Quotes in pairs -/

/-- Behind so many quotes, reading stands in a string just if their number is odd, and never in a
comment. -/
def Mode.Paired (quotes : Nat) : Mode → Prop
  | .quote _ _ => quotes % 2 = 1
  | mode => quotes % 2 = 0 ∧ mode.IsOutside = true

def State.Paired (state : State) (quotes : Nat) : Prop :=
  ∀ mode, state.status = .reading mode → mode.Paired quotes

section

variable (state) (noSign : char ≠ '@') (even : quotes % 2 = 0)

include even

theorem Mode.paired_of_isOutside {mode : Mode} (outside : mode.IsOutside = true)
    (noQuote : char ≠ '"') : mode.Paired (quotes + if char == '"' then 1 else 0) := by
  rw [beq_false_of_ne noQuote]
  cases mode with
  | quote => cases outside
  | _ => exact ⟨even, outside⟩

include noSign

theorem State.paired_begin :
    (state.begin char).Paired (quotes + if char == '"' then 1 else 0) := by
  unfold State.begin
  split
  next token known =>
    rintro _ ⟨⟩
    exact Mode.paired_of_isOutside even rfl (by rintro rfl; cases known)
  next =>
    split
    next mode known =>
      rintro _ ⟨⟩
      by_cases quote : char = '"'
      · subst quote
        cases known
        change (quotes + 1) % 2 = 1
        omega
      · simp only [opening?, if_neg noSign, if_neg quote] at known
        split_ifs at known <;> cases known <;> exact Mode.paired_of_isOutside even rfl quote
    next => rintro _ ⟨⟩

theorem State.paired_symbol (start : Mark) {second : Char} (other : second ≠ '"')
    (long short : Symbol) :
    (state.symbol start second long short char).Paired (quotes + if char == '"' then 1 else 0) := by
  unfold State.symbol
  split
  next same =>
    rintro _ ⟨⟩
    exact Mode.paired_of_isOutside even rfl (same ▸ other)
  next => exact (state.emit _ start).paired_begin noSign even

theorem State.paired_feedIn {mode : Mode} (outside : mode.IsOutside = true) :
    (state.feedIn char mode).Paired (quotes + if char == '"' then 1 else 0) := by
  have goesOn {next : Mode} (still : next.IsOutside = true) (noQuote : char ≠ '"') :
      (state.stay next char).Paired (quotes + if char == '"' then 1 else 0) := by
    rintro _ ⟨⟩
    exact Mode.paired_of_isOutside even still noQuote
  cases mode with
  | between => exact state.paired_begin noSign even
  | digits start read =>
      simp only [State.feedIn, State.emitInt]
      split
      next digit => exact goesOn rfl (by rintro rfl; cases digit)
      next =>
        split
        next point => exact goesOn rfl (by rintro rfl; cases point)
        next =>
          split
          · rintro _ ⟨⟩
          · exact (state.emit _ start).paired_begin noSign even
  | fraction start whole read =>
      simp only [State.feedIn]
      split
      next digit => exact goesOn rfl (by rintro rfl; cases digit)
      next => exact (state.emit _ start).paired_begin noSign even
  | word start read =>
      simp only [State.feedIn]
      split
      next wordy => exact goesOn rfl (by rintro rfl; cases wordy)
      next => exact (state.emit _ start).paired_begin noSign even
  | bang start =>
      simp only [State.feedIn]
      split
      next second =>
        rintro _ ⟨⟩
        exact Mode.paired_of_isOutside even rfl (by rintro rfl; cases second)
      next => rintro _ ⟨⟩
  | assign start => exact state.paired_symbol noSign even start (by decide) _ _
  | less start => exact state.paired_symbol noSign even start (by decide) _ _
  | greater start => exact state.paired_symbol noSign even start (by decide) _ _
  | slash start => exact state.paired_symbol noSign even start (by decide) _ _
  | minus start => exact state.paired_symbol noSign even start (by decide) _ _
  | _ => cases outside

end

theorem State.Paired.feed (paired : state.Paired quotes) (noSign : char ≠ '@') :
    (state.feed char).Paired (quotes + if char == '"' then 1 else 0) := by
  unfold State.feed
  split
  next mode reading =>
    have here := paired mode reading
    cases mode with
    | quote start read =>
        simp only [State.feedIn]
        split
        next quote =>
          rintro _ ⟨⟩
          subst quote
          change (quotes + 1) % 2 = 0 ∧ _
          exact ⟨by change quotes % 2 = 1 at here; omega, rfl⟩
        next noQuote =>
          rw [beq_false_of_ne noQuote]
          split <;> (rintro _ ⟨⟩; exact here)
    | _ => exact state.paired_feedIn noSign here.1 here.2
  next stopped => exact fun mode reading => absurd reading (stopped mode)

theorem State.Paired.foldl (paired : state.Paired quotes) {chars : List Char}
    (noSign : '@' ∉ chars) :
    (chars.foldl State.feed state).Paired (quotes + chars.count '"') := by
  induction chars generalizing state quotes with
  | nil => exact paired
  | cons char chars ih =>
      obtain ⟨other, later⟩ := List.ne_and_not_mem_of_not_mem_cons noSign
      rw [List.count_cons, Nat.add_comm (List.count _ _), ← Nat.add_assoc]
      exact ih (paired.feed other.symm) later

theorem isOutside_of_paired {chars : List Char} (noSign : '@' ∉ chars)
    (even : chars.count '"' % 2 = 0) : (chars.foldl State.feed .start).IsOutside = true := by
  have start : State.start.Paired 0 := by
    rintro _ ⟨⟩
    exact ⟨rfl, rfl⟩
  have paired := start.foldl noSign
  rw [Nat.zero_add] at paired
  unfold State.IsOutside
  split
  next mode reading =>
    have here := paired mode reading
    cases mode with
    | quote => cases even.symm.trans here
    | _ => exact here.2
  next => rfl

/-! ### Line ends -/

/-- Outside strings and comments, a line end follows the tokens that there are if the text ends in
front of it.  Reading stops at it just if it stops at the end of the text. -/
theorem feed_lineEnd (outside : state.IsOutside = true) :
    (∃ mode tokens, state.status = .reading mode ∧
      state.finish = ⟨.reading .between, state.mark, tokens⟩ ∧ state.feed '\n' =
        ⟨.reading .between, state.mark.after '\n', (.newline, state.mark) :: tokens⟩) ∨
    (∀ mode, state.finish.status ≠ .reading mode) ∧
      ∀ mode, (state.feed '\n').status ≠ .reading mode := by
  obtain ⟨status, mark, tokens⟩ := state
  cases status with
  | reading mode =>
      cases mode with
      | digits start read =>
          simp only [State.finish, State.finishIn]
          have fed : State.feed ⟨.reading (.digits start read), mark, tokens⟩ '\n' =
              (State.emitInt _ start read).beginIfReading '\n' := rfl
          rw [fed]
          unfold State.emitInt
          split
          · exact .inr ⟨fun _ => Status.noConfusion, fun _ => Status.noConfusion⟩
          · exact .inl ⟨_, _, rfl, rfl, rfl⟩
      | between => exact .inl ⟨_, _, rfl, rfl, rfl⟩
      | fraction start whole read => exact .inl ⟨_, _, rfl, rfl, rfl⟩
      | word start read => exact .inl ⟨_, _, rfl, rfl, rfl⟩
      | bang start => exact .inr ⟨fun _ => Status.noConfusion, fun _ => Status.noConfusion⟩
      | assign start => exact .inl ⟨_, _, rfl, rfl, rfl⟩
      | less start => exact .inl ⟨_, _, rfl, rfl, rfl⟩
      | greater start => exact .inl ⟨_, _, rfl, rfl, rfl⟩
      | slash start => exact .inl ⟨_, _, rfl, rfl, rfl⟩
      | minus start => exact .inl ⟨_, _, rfl, rfl, rfl⟩
      | _ => cases outside
  | _ => exact .inr ⟨fun _ => Status.noConfusion, fun _ => Status.noConfusion⟩

/-- The tokens that were read with their starts, if reading did not fail. -/
def Result.starts? : Result → Option (List (Token × Mark))
  | .tokens words => some (words.map fun placed => (placed.token, placed.start.mark))
  | _ => none

def State.starts? (state : State) : Option (List (Token × Mark)) :=
  match state.status with
  | .reading _ => some (state.tokens.reverse ++ [(.eof, state.mark)])
  | _ => none

theorem starts?_read (source : Source) :
    (read source).starts? = (scan source.text.toList).starts? := by
  unfold read
  generalize scan source.text.toList = state
  obtain ⟨status, mark, tokens⟩ := state
  cases status with
  | reading mode =>
      simp only [Result.starts?, State.starts?, List.reverse_cons, List.map_append, List.map_map]
      congr 2
      exact List.map_id _
  | _ => rfl

theorem starts?_of_stopped (stopped : ∀ mode, state.status ≠ .reading mode) :
    state.starts? = none ∧ state.finish = state := by
  unfold State.starts? State.finish
  generalize state.status = status at stopped
  cases status with
  | reading mode => exact absurd rfl (stopped mode)
  | _ => exact ⟨rfl, rfl⟩

theorem starts?_onto (state : State) (words : List (Token × Mark)) :
    (state.onto words).starts? = state.starts?.map (words.reverse ++ ·) := by
  obtain ⟨status, mark, tokens⟩ := state
  cases status with
  | reading mode => simp [State.starts?, State.onto]
  | _ => rfl

theorem State.Alike.starts?_eq {other : State} {place : Mark → Mark}
    (alike : state.Alike (fun mark start => mark = place start) other) :
    state.starts? = other.starts?.map (·.map fun word => (word.1, place word.2)) := by
  have words : state.tokens = other.tokens.map fun word => (word.1, place word.2) := by
    rw [← List.forall₂_eq_eq_eq, List.forall₂_map_right_iff]
    exact alike.tokens.imp fun _ _ same => Prod.ext same.1 same.2
  have status := alike.status
  unfold State.starts?
  generalize state.status = here at status ⊢
  generalize other.status = there at status ⊢
  cases status with
  | reading modes => simp [words, alike.mark]
  | _ => rfl

/-- Texts are read line by line.  Let a text without comments hold its quotes in pairs.  Behind it
and a line end, another text is read as if it stood alone: reading fails just if one of the two
cannot be read, and else the tokens of the first are followed by the line end and those of the
second, which start in the same columns and so many characters and lines further. -/
theorem starts_of_joined_lines (name front back : String) (noSign : '@' ∉ front.toList)
    (paired : front.toList.count '"' % 2 = 0) :
    (read ⟨name, front ++ "\n" ++ back⟩).starts? =
      (read ⟨name, front⟩).starts?.bind fun words =>
        (read ⟨name, back⟩).starts?.map fun others =>
          words.dropLast ++ (.newline, .behind front.toList) ::
            others.map fun word => (word.1, word.2.moved (front.length + 1)
              (front.toList.count '\n' + 1)) := by
  have outside := isOutside_of_paired noSign paired
  have tracked := tracked_start front.toList
  simp only [starts?_read, scan, String.toList_append, List.foldl_append]
  change State.starts? (State.finish (back.toList.foldl State.feed (State.feed _ '\n'))) = _
  generalize front.toList.foldl State.feed .start = state at outside tracked
  rcases feed_lineEnd outside with ⟨mode, tokens, reading, finished, fed⟩ | ⟨stopped, stuck⟩
  · have mark : state.mark = .behind front.toList := (tracked mode reading).1
    let place (start : Mark) : Mark :=
      start.moved (front.length + 1) (front.toList.count '\n' + 1)
    have steady : Steady fun mark start => mark = place start := by
      rintro _ start rfl char
      exact start.moved_after _ _ char
    have alike : State.Alike (fun mark start => mark = place start)
        ⟨.reading .between, state.mark.after '\n', []⟩ .start := by
      refine ⟨.reading .between, ?_, .nil⟩
      rw [mark]
      simp [place, ← String.length_toList, Mark.behind, Mark.after, Mark.advance, Mark.moved,
        State.start, Mark.origin]
    have joined : state.feed '\n' = State.onto ⟨.reading .between, state.mark.after '\n', []⟩
        ((.newline, .behind front.toList) :: tokens) := by
      rw [fed, ← mark]
      rfl
    rw [joined, List.foldl_hom (State.onto · _) fun state char => feed_onto state _ char,
      finish_onto, starts?_onto, ((alike.foldl steady back.toList).finish steady).starts?_eq,
      finished]
    cases (back.toList.foldl State.feed .start).finish.starts? with
    | none => rfl
    | some others => simp [State.starts?, place]
  · rw [foldl_feed_of_stopped stuck, (starts?_of_stopped stuck).2, (starts?_of_stopped stuck).1,
      (starts?_of_stopped stopped).1]
    rfl

/-- A string over two lines and a number that ends in a point, in front of an open string. -/
theorem starts_of_joined_lines_string :
    ('@' ∉ "\"a\nb\" 1.".toList ∧ "\"a\nb\" 1.".toList.count '"' % 2 = 0) ∧
    (read ⟨"", "\"a\nb\" 1." ++ "\n" ++ "x\n\"@"⟩).starts? =
      (read ⟨"", "\"a\nb\" 1."⟩).starts?.bind fun words => some (words.dropLast ++
        [(.newline, ⟨8, 1, 5⟩), (.identifier "x", ⟨9, 2, 0⟩), (.newline, ⟨10, 2, 1⟩),
          (.string "@", ⟨11, 3, 0⟩), (.eof, ⟨14, 3, 3⟩)]) := by
  have noSign : '@' ∉ "\"a\nb\" 1.".toList := by decide
  have paired : "\"a\nb\" 1.".toList.count '"' % 2 = 0 := by decide
  exact ⟨⟨noSign, paired⟩, starts_of_joined_lines "" "\"a\nb\" 1." "x\n\"@" noSign paired⟩

end Lexer

end Lingo
