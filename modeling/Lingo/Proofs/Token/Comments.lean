/-
Comments among tokens.

Two readers that differ only in the places of what they have read go on in the same way.  So a
comment can be traded for a blank: a comment on a line for the blank alone, and the end of the
line is lost with it; a block for the blank and the sign that opens the next comment, since the
sign that closes a block does that as well.
-/

import Lingo.Token.Lexer
import Mathlib.Data.List.Forall2

namespace Lingo.Lexer

variable {body : List Char}

/-! ### Readers that differ in places -/

/-- A relation between the places of two readers outlasts every character. -/
def Steady (related : Mark → Mark → Prop) : Prop :=
  ∀ {mark other : Mark}, related mark other → ∀ char, related (mark.after char) (other.after char)

/-- Two modes that differ in the place where a token began. -/
inductive Mode.Alike (related : Mark → Mark → Prop) : Mode → Mode → Prop where
  | between : Alike related .between .between
  | digits {start other : Mark} (starts : related start other) (read : List Char) :
      Alike related (.digits start read) (.digits other read)
  | fraction {start other : Mark} (starts : related start other) (whole read : List Char) :
      Alike related (.fraction start whole read) (.fraction other whole read)
  | word {start other : Mark} (starts : related start other) (read : List Char) :
      Alike related (.word start read) (.word other read)
  | quote {start other : Mark} (starts : related start other) (read : List Char) :
      Alike related (.quote start read) (.quote other read)
  | bang {start other : Mark} (starts : related start other) :
      Alike related (.bang start) (.bang other)
  | assign {start other : Mark} (starts : related start other) :
      Alike related (.assign start) (.assign other)
  | less {start other : Mark} (starts : related start other) :
      Alike related (.less start) (.less other)
  | greater {start other : Mark} (starts : related start other) :
      Alike related (.greater start) (.greater other)
  | slash {start other : Mark} (starts : related start other) :
      Alike related (.slash start) (.slash other)
  | minus {start other : Mark} (starts : related start other) :
      Alike related (.minus start) (.minus other)
  | commentStart : Alike related .commentStart .commentStart
  | lineComment : Alike related .lineComment .lineComment
  | blockComment : Alike related .blockComment .blockComment
  | blockSlash : Alike related .blockSlash .blockSlash

inductive Status.Alike (related : Mark → Mark → Prop) : Status → Status → Prop where
  | reading {mode other : Mode} (modes : mode.Alike related other) :
      Alike related (.reading mode) (.reading other)
  | refused (cause : LexCause) {start stop otherStart otherStop : Mark}
      (starts : related start otherStart) (stops : related stop otherStop) :
      Alike related (.refused cause start stop) (.refused cause otherStart otherStop)
  | crashed (crash : Crash) : Alike related (.crashed crash) (.crashed crash)

/-- Two readers have read the same tokens and are in the same mode, at places that are related. -/
structure State.Alike (related : Mark → Mark → Prop) (state other : State) : Prop where
  status : state.status.Alike related other.status
  mark : related state.mark other.mark
  tokens : List.Forall₂ (fun word otherWord => word.1 = otherWord.1 ∧ related word.2 otherWord.2)
    state.tokens other.tokens

variable {related : Mark → Mark → Prop} {state other : State}

private theorem rel_ite {α : Type} {relation : Option α → Option α → Prop} (condition : Prop)
    [Decidable condition] {yes otherYes no otherNo : Option α} (left : relation yes otherYes)
    (right : relation no otherNo) :
    relation (if condition then yes else no) (if condition then otherYes else otherNo) := by
  split
  · exact left
  · exact right

theorem opening?_alike {mark otherMark : Mark} (marks : related mark otherMark) (char : Char) :
    Option.Rel (Mode.Alike related) (opening? mark char) (opening? otherMark char) := by
  unfold opening?
  refine rel_ite _ (.some .between) ?_
  refine rel_ite _ (.some .commentStart) ?_
  refine rel_ite _ (.some (.digits marks _)) ?_
  refine rel_ite _ (.some (.word marks _)) ?_
  refine rel_ite _ (.some (.quote marks _)) ?_
  refine rel_ite _ (.some (.minus marks)) ?_
  refine rel_ite _ (.some (.slash marks)) ?_
  refine rel_ite _ (.some (.bang marks)) ?_
  refine rel_ite _ (.some (.assign marks)) ?_
  refine rel_ite _ (.some (.less marks)) ?_
  exact rel_ite _ (.some (.greater marks)) .none

namespace State.Alike

theorem emit (alike : state.Alike related other) (token : Token) {start otherStart : Mark}
    (starts : related start otherStart) :
    (state.emit token start).Alike related (other.emit token otherStart) where
  status := .reading .between
  mark := alike.mark
  tokens := .cons ⟨rfl, starts⟩ alike.tokens

theorem emitInt (alike : state.Alike related other) {start otherStart : Mark}
    (starts : related start otherStart) (read : List Char) :
    (state.emitInt start read).Alike related (other.emitInt otherStart read) := by
  unfold State.emitInt
  split
  · exact ⟨.crashed _, alike.mark, alike.tokens⟩
  · exact alike.emit _ starts

variable (steady : Steady related)

include steady

variable (alike : state.Alike related other)

include alike

theorem stay {mode otherMode : Mode} (modes : mode.Alike related otherMode) (char : Char) :
    (state.stay mode char).Alike related (other.stay otherMode char) where
  status := .reading modes
  mark := steady alike.mark char
  tokens := alike.tokens

theorem close (token : Token) {start otherStart : Mark} (starts : related start otherStart)
    (char : Char) :
    (state.close token start char).Alike related (other.close token otherStart char) where
  status := .reading .between
  mark := steady alike.mark char
  tokens := .cons ⟨rfl, starts⟩ alike.tokens

theorem begin (char : Char) : (state.begin char).Alike related (other.begin char) := by
  have further := steady alike.mark char
  unfold State.begin
  split
  next token _ => exact ⟨.reading .between, further, .cons ⟨rfl, alike.mark⟩ alike.tokens⟩
  next =>
    have opens := opening?_alike alike.mark char
    generalize opening? state.mark char = mode at opens ⊢
    generalize opening? other.mark char = otherMode at opens ⊢
    cases opens with
    | none => exact ⟨.refused _ alike.mark further, further, alike.tokens⟩
    | some modes => exact ⟨.reading modes, further, alike.tokens⟩

theorem beginIfReading (char : Char) :
    (state.beginIfReading char).Alike related (other.beginIfReading char) := by
  have status := alike.status
  unfold State.beginIfReading
  generalize state.status = here at status ⊢
  generalize other.status = there at status ⊢
  cases status with
  | reading modes => exact alike.begin steady char
  | refused cause starts stops => exact alike
  | crashed crash => exact alike

theorem symbol {start otherStart : Mark} (starts : related start otherStart) (second : Char)
    (long short : Symbol) (char : Char) :
    (state.symbol start second long short char).Alike related
      (other.symbol otherStart second long short char) := by
  unfold State.symbol
  split
  · exact alike.close steady _ starts char
  · exact (alike.emit _ starts).begin steady char

theorem feedIn {mode otherMode : Mode} (modes : mode.Alike related otherMode) (char : Char) :
    (state.feedIn char mode).Alike related (other.feedIn char otherMode) := by
  cases modes with
  | between => exact alike.begin steady char
  | digits starts read =>
      simp only [State.feedIn]
      split
      · exact alike.stay steady (.digits starts _) char
      · split
        · exact alike.stay steady (.fraction starts _ _) char
        · exact (alike.emitInt starts read).beginIfReading steady char
  | fraction starts whole read =>
      simp only [State.feedIn]
      split
      · exact alike.stay steady (.fraction starts _ _) char
      · exact (alike.emit _ starts).begin steady char
  | word starts read =>
      simp only [State.feedIn]
      split
      · exact alike.stay steady (.word starts _) char
      · exact (alike.emit _ starts).begin steady char
  | quote starts read =>
      simp only [State.feedIn]
      split
      · exact alike.close steady _ starts char
      · split
        · exact alike.stay steady (.quote starts _) char
        · exact alike.stay steady (.quote starts _) char
  | bang starts =>
      simp only [State.feedIn]
      split
      · exact alike.close steady _ starts char
      · have further := steady alike.mark char
        exact ⟨.refused _ starts further, further, alike.tokens⟩
  | assign starts => exact alike.symbol steady starts _ _ _ char
  | less starts => exact alike.symbol steady starts _ _ _ char
  | greater starts => exact alike.symbol steady starts _ _ _ char
  | slash starts => exact alike.symbol steady starts _ _ _ char
  | minus starts => exact alike.symbol steady starts _ _ _ char
  | commentStart =>
      simp only [State.feedIn]
      split
      · exact alike.stay steady .blockComment char
      · split
        · exact alike.stay steady .between char
        · exact alike.stay steady .lineComment char
  | lineComment =>
      simp only [State.feedIn]
      split
      · exact alike.stay steady .between char
      · exact alike.stay steady .lineComment char
  | blockComment =>
      simp only [State.feedIn]
      split
      · exact alike.stay steady .blockSlash char
      · exact alike.stay steady .blockComment char
  | blockSlash =>
      simp only [State.feedIn]
      split
      · exact alike.stay steady .commentStart char
      · split
        · exact alike.stay steady .blockSlash char
        · exact alike.stay steady .blockComment char

theorem feed (char : Char) : (state.feed char).Alike related (other.feed char) := by
  have status := alike.status
  unfold State.feed
  generalize state.status = here at status ⊢
  generalize other.status = there at status ⊢
  cases status with
  | reading modes => exact alike.feedIn steady modes char
  | refused cause starts stops => exact alike
  | crashed crash => exact alike

theorem foldl (chars : List Char) :
    (chars.foldl State.feed state).Alike related (chars.foldl State.feed other) := by
  induction chars generalizing state other with
  | nil => exact alike
  | cons char chars ih => exact ih (alike.feed steady char)

theorem finishIn {mode otherMode : Mode} (modes : mode.Alike related otherMode) :
    (state.finishIn mode).Alike related (other.finishIn otherMode) := by
  -- The place behind the text is the one behind a further blank.
  have further : related state.mark.next other.mark.next := steady alike.mark ' '
  cases modes with
  | between => exact alike
  | digits starts read => exact alike.emitInt starts read
  | fraction starts whole read => exact alike.emit _ starts
  | word starts read => exact alike.emit _ starts
  | quote starts read => exact ⟨.reading .between, further, (alike.emit _ starts).tokens⟩
  | bang starts => exact ⟨.refused _ starts further, further, alike.tokens⟩
  | assign starts => exact alike.emit _ starts
  | less starts => exact alike.emit _ starts
  | greater starts => exact alike.emit _ starts
  | slash starts => exact alike.emit _ starts
  | minus starts => exact alike.emit _ starts
  | commentStart => exact alike
  | lineComment => exact alike
  | blockComment => exact ⟨.refused _ alike.mark alike.mark, alike.mark, alike.tokens⟩
  | blockSlash => exact ⟨.refused _ alike.mark alike.mark, alike.mark, alike.tokens⟩

theorem finish : state.finish.Alike related other.finish := by
  have status := alike.status
  unfold State.finish
  generalize state.status = here at status ⊢
  generalize other.status = there at status ⊢
  cases status with
  | reading modes => exact alike.finishIn steady modes
  | refused cause starts stops => exact alike
  | crashed crash => exact alike

end State.Alike

/-! ### What was read, places apart -/

/-- What was read, places apart: the tokens, or why there are none. -/
def Result.content : Result → Except (LexCause ⊕ Crash) (List Token)
  | .tokens words => .ok (words.map Placed.token)
  | .refused cause _ _ => .error (.inl cause)
  | .crashed crash => .error (.inr crash)

/-- What a reader has read, if the text ends where it stands. -/
def State.content (state : State) : Except (LexCause ⊕ Crash) (List Token) :=
  match state.status with
  | .reading _ => .ok (((state.tokens.map Prod.fst).reverse) ++ [.eof])
  | .refused cause _ _ => .error (.inl cause)
  | .crashed crash => .error (.inr crash)

theorem content_read (source : Source) :
    (read source).content = (scan source.text.toList).content := by
  unfold read
  generalize scan source.text.toList = state
  obtain ⟨status, mark, tokens⟩ := state
  cases status with
  | reading mode =>
      simp only [Result.content, State.content, List.reverse_cons, List.map_append, List.map_map,
        List.map_reverse]
      rfl
  | refused cause start stop => rfl
  | crashed crash => rfl

theorem State.Alike.content_eq (alike : state.Alike related other) :
    state.content = other.content := by
  have status := alike.status
  have words : state.tokens.map Prod.fst = other.tokens.map Prod.fst := by
    rw [← List.forall₂_eq_eq_eq, List.forall₂_map_left_iff, List.forall₂_map_right_iff]
    exact alike.tokens.imp fun _ _ same => same.1
  unfold State.content
  generalize state.status = here at status ⊢
  generalize other.status = there at status ⊢
  cases status with
  | reading modes => rw [words]
  | refused cause starts stops => rfl
  | crashed crash => rfl

/-! ### Inside a comment -/

def Mode.IsOutside : Mode → Bool
  | .quote _ _ | .commentStart | .lineComment | .blockComment | .blockSlash => false
  | _ => true

/-- Reading stands outside strings and comments, or it has stopped. -/
def State.IsOutside (state : State) : Bool :=
  match state.status with
  | .reading mode => mode.IsOutside
  | _ => true

/-- A blank and the sign of a comment end a token in the way the end of the text does. -/
theorem feed_eq_beginIfReading_finish {char : Char} (ending : char = ' ' ∨ char = '@')
    (outside : state.IsOutside) : state.feed char = state.finish.beginIfReading char := by
  obtain ⟨status, mark, tokens⟩ := state
  cases status with
  | refused cause start stop => rfl
  | crashed crash => rfl
  | reading mode =>
      cases mode with
      | between => rfl
      | digits start read => rcases ending with rfl | rfl <;> rfl
      | fraction start whole read => rcases ending with rfl | rfl <;> rfl
      | word start read => rcases ending with rfl | rfl <;> rfl
      | bang start => rcases ending with rfl | rfl <;> rfl
      | assign start => rcases ending with rfl | rfl <;> rfl
      | less start => rcases ending with rfl | rfl <;> rfl
      | greater start => rcases ending with rfl | rfl <;> rfl
      | slash start => rcases ending with rfl | rfl <;> rfl
      | minus start => rcases ending with rfl | rfl <;> rfl
      | quote start read => cases outside
      | commentStart => cases outside
      | lineComment => cases outside
      | blockComment => cases outside
      | blockSlash => cases outside

theorem foldl_feed_of_stopped (stopped : ∀ mode, state.status ≠ .reading mode)
    (chars : List Char) : chars.foldl State.feed state = state := by
  have still : ∀ char, state.feed char = state := by
    intro char
    unfold State.feed
    split
    next mode same => exact absurd same (stopped mode)
    next => rfl
  induction chars with
  | nil => rfl
  | cons char chars ih => rw [List.foldl_cons, still, ih]

/-- Outside strings and comments, a blank and the sign of a comment differ in the mode that they
lead to, unless reading has stopped by then. -/
theorem feed_blank_sign (outside : state.IsOutside) :
    (∃ mark tokens, state.feed ' ' = ⟨.reading .between, mark, tokens⟩ ∧
      state.feed '@' = ⟨.reading .commentStart, mark, tokens⟩) ∨
    (state.feed '@' = state.feed ' ' ∧
      ∀ chars : List Char, chars.foldl State.feed (state.feed ' ') = state.feed ' ') := by
  rw [feed_eq_beginIfReading_finish (.inl rfl) outside,
    feed_eq_beginIfReading_finish (.inr rfl) outside]
  generalize state.finish = ended
  obtain ⟨status, mark, tokens⟩ := ended
  cases status with
  | reading mode => exact .inl ⟨_, _, rfl, rfl⟩
  | refused cause start stop =>
      exact .inr ⟨rfl, fun chars => foldl_feed_of_stopped (fun mode => Status.noConfusion) chars⟩
  | crashed crash =>
      exact .inr ⟨rfl, fun chars => foldl_feed_of_stopped (fun mode => Status.noConfusion) chars⟩

/-- What stands behind the sign of a comment on one line. -/
structure IsLineBody (body : List Char) : Prop where
  notBlock : body.head? ≠ some '/'
  oneLine : '\n' ∉ body

/-- What stands in a block: it is not closed before its end. -/
def IsBlockBody (body : List Char) : Prop :=
  ¬ ['/', '@'] <:+: body

def IsLineComment (comment : String) : Prop :=
  ∃ body, comment.toList = '@' :: body ∧ IsLineBody body

def IsBlockComment (comment : String) : Prop :=
  ∃ body, comment.toList = '@' :: '/' :: (body ++ ['/', '@']) ∧ IsBlockBody body

theorem foldl_feed_lineComment (oneLine : '\n' ∉ body) (mark : Mark)
    (tokens : List (Token × Mark)) :
    ∃ after, body.foldl State.feed ⟨.reading .lineComment, mark, tokens⟩ =
      ⟨.reading .lineComment, after, tokens⟩ := by
  induction body generalizing mark with
  | nil => exact ⟨mark, rfl⟩
  | cons char body ih =>
      have other : char ≠ '\n' := fun same => oneLine (same ▸ List.mem_cons_self)
      have step : State.feed ⟨.reading .lineComment, mark, tokens⟩ char =
          ⟨.reading .lineComment, mark.after char, tokens⟩ := by
        simp only [State.feed, State.feedIn, State.stay, if_neg other]
      rw [List.foldl_cons, step]
      exact ih (fun member => oneLine (List.mem_cons_of_mem _ member)) _

/-- A comment on one line adds no token, and the reader stays in it up to the end of the line. -/
theorem foldl_feed_lineBody (line : IsLineBody body) (mark : Mark) (tokens : List (Token × Mark)) :
    ∃ mode after, body.foldl State.feed ⟨.reading .commentStart, mark, tokens⟩ =
      ⟨.reading mode, after, tokens⟩ ∧ (mode = .commentStart ∨ mode = .lineComment) := by
  cases body with
  | nil => exact ⟨_, mark, rfl, .inl rfl⟩
  | cons char body =>
      have notSlash : char ≠ '/' := fun same => line.notBlock (by rw [same]; rfl)
      have notEnd : char ≠ '\n' := fun same => line.oneLine (same ▸ List.mem_cons_self)
      have step : State.feed ⟨.reading .commentStart, mark, tokens⟩ char =
          ⟨.reading .lineComment, mark.after char, tokens⟩ := by
        simp only [State.feed, State.feedIn, State.stay, if_neg notSlash, if_neg notEnd]
      obtain ⟨after, run⟩ := foldl_feed_lineComment
        (fun member => line.oneLine (List.mem_cons_of_mem _ member)) (mark.after char) tokens
      exact ⟨_, after, by rw [List.foldl_cons, step, run], .inr rfl⟩

/-- A block adds no token while it is open.  Behind a stroke, what is to come must not close it
together with the stroke. -/
theorem foldl_feed_blockBody {mode : Mode} (mark : Mark) (tokens : List (Token × Mark))
    (here : (mode = .blockComment ∧ IsBlockBody body) ∨
      (mode = .blockSlash ∧ IsBlockBody ('/' :: body))) :
    ∃ last after, body.foldl State.feed ⟨.reading mode, mark, tokens⟩ =
      ⟨.reading last, after, tokens⟩ ∧ (last = .blockComment ∨ last = .blockSlash) := by
  induction body generalizing mode mark with
  | nil => exact ⟨mode, mark, rfl, here.imp And.left And.left⟩
  | cons char body ih =>
      have shorter {chars : List Char} {first : Char} (opens : IsBlockBody (first :: chars)) :
          IsBlockBody chars := fun closed => opens (List.infix_cons closed)
      rw [List.foldl_cons]
      rcases here with ⟨rfl, opens⟩ | ⟨rfl, opens⟩
      · by_cases slash : char = '/'
        · subst slash
          exact ih _ (.inr ⟨rfl, opens⟩)
        · have step : State.feed ⟨.reading .blockComment, mark, tokens⟩ char =
              ⟨.reading .blockComment, mark.after char, tokens⟩ := by
            simp only [State.feed, State.feedIn, State.stay, if_neg slash]
          rw [step]
          exact ih _ (.inl ⟨rfl, shorter opens⟩)
      · have notSign : char ≠ '@' := by
          intro same
          subst same
          exact opens ⟨[], body, rfl⟩
        by_cases slash : char = '/'
        · subst slash
          exact ih _ (.inr ⟨rfl, shorter opens⟩)
        · have step : State.feed ⟨.reading .blockSlash, mark, tokens⟩ char =
              ⟨.reading .blockComment, mark.after char, tokens⟩ := by
            simp only [State.feed, State.feedIn, State.stay, if_neg notSign, if_neg slash]
          rw [step]
          exact ih _ (.inl ⟨rfl, shorter (shorter opens)⟩)

/-! ### Comments traded for blanks -/

def Anywhere (_ _ : Mark) : Prop := True

theorem steady_anywhere : Steady Anywhere :=
  fun _ _ => trivial

theorem State.Alike.anywhere (state : State) : state.Alike Anywhere state where
  status := by
    obtain ⟨status, mark, tokens⟩ := state
    cases status with
    | reading mode => exact .reading (by cases mode <;> constructor <;> trivial)
    | refused cause start stop => exact .refused cause trivial trivial
    | crashed crash => exact .crashed crash
  mark := trivial
  tokens := List.forall₂_same.mpr fun _ _ => ⟨rfl, trivial⟩

theorem foldl_feed_line_alike (line : IsLineBody body) (outside : state.IsOutside) :
    (('@' :: body ++ ['\n']).foldl State.feed state).Alike Anywhere (state.feed ' ') := by
  rw [List.cons_append, List.foldl_cons]
  rcases feed_blank_sign outside with ⟨mark, tokens, blank, sign⟩ | ⟨same, stuck⟩
  · obtain ⟨mode, after, run, modes⟩ := foldl_feed_lineBody line mark tokens
    have back : State.feed ⟨.reading mode, after, tokens⟩ '\n' =
        ⟨.reading .between, after.after '\n', tokens⟩ := by
      rcases modes with rfl | rfl <;> rfl
    rw [blank, sign, List.foldl_append, run, List.foldl_cons, List.foldl_nil, back]
    exact ⟨.reading .between, trivial, List.forall₂_same.mpr fun _ _ => ⟨rfl, trivial⟩⟩
  · rw [same, stuck]
    exact State.Alike.anywhere _

theorem content_finish_line (line : IsLineBody body) (outside : state.IsOutside) :
    (('@' :: body).foldl State.feed state).finish.content = (state.feed ' ').finish.content := by
  rw [List.foldl_cons]
  rcases feed_blank_sign outside with ⟨mark, tokens, blank, sign⟩ | ⟨same, stuck⟩
  · obtain ⟨mode, after, run, modes⟩ := foldl_feed_lineBody line mark tokens
    rw [blank, sign, run]
    rcases modes with rfl | rfl <;> rfl
  · rw [same, stuck]

/-- A block stands for a blank and the sign of a comment: the sign that closes the block opens
another comment. -/
theorem foldl_feed_block_alike (block : IsBlockBody body) (outside : state.IsOutside) :
    (('@' :: '/' :: (body ++ ['/', '@'])).foldl State.feed state).Alike Anywhere
      ((state.feed ' ').feed '@') := by
  rw [List.foldl_cons]
  rcases feed_blank_sign outside with ⟨mark, tokens, blank, sign⟩ | ⟨same, stuck⟩
  · have opened : State.feed ⟨.reading .commentStart, mark, tokens⟩ '/' =
        ⟨.reading .blockComment, mark.after '/', tokens⟩ := rfl
    obtain ⟨mode, after, run, modes⟩ :=
      foldl_feed_blockBody (mark.after '/') tokens (.inl ⟨rfl, block⟩)
    have closed : (['/', '@'].foldl State.feed ⟨.reading mode, after, tokens⟩) =
        ⟨.reading .commentStart, (after.after '/').after '@', tokens⟩ := by
      rcases modes with rfl | rfl <;> rfl
    rw [blank, sign, List.foldl_cons, opened, List.foldl_append, run, closed]
    exact ⟨.reading .commentStart, trivial, List.forall₂_same.mpr fun _ _ => ⟨rfl, trivial⟩⟩
  · have still : (state.feed ' ').feed '@' = state.feed ' ' := stuck ['@']
    rw [same, stuck, still]
    exact State.Alike.anywhere _

theorem content_finish_of_alike (alike : state.Alike Anywhere other) (rest : List Char) :
    (rest.foldl State.feed state).finish.content = (rest.foldl State.feed other).finish.content :=
  ((alike.foldl steady_anywhere rest).finish steady_anywhere).content_eq

/-- Reading a text with a comment in it.  The comment stands behind a front that does not end in a
string or a comment.  On one line it is a blank, but the end of the line goes with it, so what
stands on the next line is read as if it stood on the same; a block is a blank and the sign of
another comment, so what follows it is read as a comment once more. -/
theorem content_read_comment (name front comment rest : String)
    (outside : (front.toList.foldl State.feed .start).IsOutside) :
    (IsLineComment comment →
      (read ⟨name, front ++ comment⟩).content = (read ⟨name, front ++ " "⟩).content ∧
      (read ⟨name, front ++ comment ++ "\n" ++ rest⟩).content =
        (read ⟨name, front ++ " " ++ rest⟩).content) ∧
    (IsBlockComment comment →
      (read ⟨name, front ++ comment ++ rest⟩).content =
        (read ⟨name, front ++ " @" ++ rest⟩).content) := by
  refine ⟨?_, ?_⟩
  · rintro ⟨body, spelled, line⟩
    refine ⟨?_, ?_⟩
    · simp only [content_read, scan, String.toList_append, List.foldl_append, spelled]
      exact content_finish_line line outside
    · have alike := foldl_feed_line_alike line outside
      rw [List.foldl_append] at alike
      simp only [content_read, scan, String.toList_append, List.foldl_append, spelled]
      exact content_finish_of_alike alike rest.toList
  · rintro ⟨body, spelled, block⟩
    simp only [content_read, scan, String.toList_append, List.foldl_append, spelled]
    exact content_finish_of_alike (foldl_feed_block_alike block outside) rest.toList

/-- Behind a name that goes on to the comment, with strokes and signs inside the block. -/
theorem content_read_comment_total :
    (("total".toList.foldl State.feed .start).IsOutside ∧ IsLineComment "@ a/b @/" ∧
      IsBlockComment "@/ a @/ b //@") ∧
    (read ⟨"", "total" ++ "@ a/b @/"⟩).content = (read ⟨"", "total" ++ " "⟩).content ∧
    (read ⟨"", "total" ++ "@ a/b @/" ++ "\n" ++ "+ 1"⟩).content =
      (read ⟨"", "total" ++ " " ++ "+ 1"⟩).content ∧
    (read ⟨"", "total" ++ "@/ a @/ b //@" ++ "\n+ 1"⟩).content =
      (read ⟨"", "total" ++ " @" ++ "\n+ 1"⟩).content := by
  have outside : ("total".toList.foldl State.feed .start).IsOutside := by decide +kernel
  have line : IsLineComment "@ a/b @/" :=
    ⟨" a/b @/".toList, by decide +kernel, ⟨by decide +kernel, by decide +kernel⟩⟩
  have block : IsBlockComment "@/ a @/ b //@" :=
    ⟨" a @/ b /".toList, by decide +kernel, by unfold IsBlockBody; decide +kernel⟩
  have lines := (content_read_comment "" "total" "@ a/b @/" "+ 1" outside).1 line
  exact ⟨⟨outside, line, block⟩, lines.1, lines.2,
    (content_read_comment "" "total" "@/ a @/ b //@" "\n+ 1" outside).2 block⟩

/-- Neither kind of comment is only a blank.  The number behind a block is lost, and so is the
end of the line behind a comment on it. -/
theorem content_read_comment_ne_blank :
    (IsBlockComment "@/ c /@" ∧
      (read ⟨"", "" ++ "@/ c /@" ++ " 1"⟩).content = .ok [.eof] ∧
      (read ⟨"", "" ++ " " ++ " 1"⟩).content = .ok [.int 1, .eof]) ∧
    (IsLineComment "@ c" ∧
      (read ⟨"", "1 " ++ "@ c" ++ "\n2"⟩).content = .ok [.int 1, .int 2, .eof] ∧
      (read ⟨"", "1 " ++ " " ++ "\n2"⟩).content = .ok [.int 1, .newline, .int 2, .eof]) := by
  refine ⟨⟨⟨" c ".toList, by decide +kernel, by unfold IsBlockBody; decide +kernel⟩, ?_, ?_⟩,
    ⟨⟨" c".toList, by decide +kernel, ⟨by decide +kernel, by decide +kernel⟩⟩, ?_, ?_⟩⟩
  · rfl
  · rfl
  · rfl
  · rfl

end Lingo.Lexer
