/-
One script behind another.

A script is read next to a longer row: the same tokens, a line end in the place of the end mark,
and more.  Inside a body both are read in the same way.  Outside, the statements of the longer row
go on where those of the script end, and what follows is read as a script of its own would be.
-/

import Lingo.Proofs.Grammar.BlankLines
import Lingo.Proofs.Grammar.Nesting
import Lingo.Proofs.Grammar.Printing

namespace Lingo

namespace Nest

/-- Behind words something is open, and not just a colon. -/
def Inside (words : List Token) : Prop :=
  settle (behind [] words) = behind [] words ∧ behind [] words ≠ []

theorem Inside.append {words others : List Token} {plain : Prop} (inside : Inside words)
    (closes : Closes plain others) : behind [] (words ++ others) ≠ [] := by
  obtain ⟨count, reached, _⟩ := closes _ inside.1
  rw [behind_append, reached]
  exact fun nothing => inside.2 (List.append_eq_nil_iff.mp nothing).2

theorem behind_opening (words : List Token) {symbol : Symbol}
    (opens : symbol = .colon ∨ symbol = .leftCurly) :
    behind [] (words ++ [.symbol symbol]) ≠ [] ∧
      Inside (words ++ [.symbol symbol, .newline]) := by
  simp only [Inside, behind_append]
  rcases opens with rfl | rfl
  · exact ⟨List.cons_ne_nil _ _, rfl, List.cons_ne_nil _ _⟩
  · exact ⟨List.cons_ne_nil _ _, rfl, List.cons_ne_nil _ _⟩

end Nest

namespace Grammar

open Rule Versions

variable {tokens : Array Placed} {level : Level}

/-! ### Rows that go on -/

/-- The second row goes on with a line end where the first one ends. -/
structure Rows.Prolongs (pair : Rows) (words more : List Token) : Prop where
  short : ahead pair.tokens 0 = words ++ [.eof]
  long : ahead pair.others 0 = words ++ .newline :: more
  length : pair.last = words.length

theorem getElem?_ahead {index : Nat} (inside : index < tokens.size) :
    (ahead tokens 0)[index]? = some (tokenAt tokens index).token := by
  rw [tokenAt_of_lt tokens inside]
  simp [ahead, inside]

theorem ahead_eq_drop (tokens : Array Placed) (place : Nat) :
    ahead tokens place = (ahead tokens 0).drop place := by
  simp [ahead]

namespace Rows.Prolongs

variable {pair : Rows} {words more : List Token} {place : Nat}

section

variable (prolongs : pair.Prolongs words more)

include prolongs

theorem size : pair.tokens.size = pair.last + 1 := by
  have count := length_ahead pair.tokens 0
  rw [prolongs.short, List.length_append, List.length_singleton] at count
  rw [prolongs.length]
  omega

theorem otherSize :
    pair.others.size = pair.last + 1 + more.length := by
  have count := length_ahead pair.others 0
  rw [prolongs.long, List.length_append, List.length_cons] at count
  rw [prolongs.length]
  omega

theorem token (before : place < pair.last) :
    words[place]? = some (tokenAt pair.tokens place).token := by
  have size := prolongs.size
  have length := prolongs.length
  rw [← getElem?_ahead (by omega), prolongs.short, List.getElem?_append_left (by omega)]

theorem otherToken (before : place < pair.last) :
    words[place]? = some (tokenAt pair.others place).token := by
  have size := prolongs.otherSize
  have length := prolongs.length
  rw [← getElem?_ahead (by omega), prolongs.long, List.getElem?_append_left (by omega)]

theorem shared (before : place < pair.last) :
    (tokenAt pair.tokens place).token = (tokenAt pair.others place).token :=
  Option.some.inj ((prolongs.token before).symm.trans (prolongs.otherToken before))

theorem line :
    (tokenAt pair.others pair.last).token = .newline := by
  have size := prolongs.otherSize
  have here := @getElem?_ahead pair.others pair.last (by omega)
  rw [prolongs.long, prolongs.length, List.getElem?_append_right (Nat.le_refl _), Nat.sub_self] at here
  rw [prolongs.length]
  exact (Option.some.inj here).symm

theorem longer : pair.last < pair.otherLast := by
  rcases Nat.lt_trichotomy pair.otherLast pair.last with before | same | behind
  · have mark := prolongs.shared before
    rw [pair.otherEnds.mark] at mark
    exact absurd mark (pair.ends.before _ before)
  · have mark := pair.otherEnds.mark
    rw [same, prolongs.line] at mark
    cases mark
  · exact behind

theorem take_succ (before : place < pair.last) :
    words.take (place + 1) = words.take place ++ [(tokenAt pair.tokens place).token] := by
  rw [List.take_add_one, prolongs.token before]
  rfl

theorem ahead_eq (within : place ≤ pair.last) :
    ahead pair.tokens place = words.drop place ++ [.eof] := by
  rw [ahead_eq_drop, prolongs.short, List.drop_append_of_le_length (prolongs.length ▸ within)]

theorem otherAhead_eq (within : place ≤ pair.last) :
    ahead pair.others place = words.drop place ++ .newline :: more := by
  rw [ahead_eq_drop, prolongs.long, List.drop_append_of_le_length (prolongs.length ▸ within)]

theorem between_eq (within : place ≤ pair.last) :
    between pair.tokens place pair.last = words.drop place := by
  change (ahead pair.tokens place).take (pair.last - place) = words.drop place
  rw [prolongs.ahead_eq within, prolongs.length, List.take_append_of_le_length (by simp),
    List.take_of_length_le (by simp)]

end

/-- A row and one that goes on are read side by side, from the same index.  They do not fit together
if something is open at the end of the first one. -/
def versions (prolongs : pair.Prolongs words more) : Versions where
  toRows := pair
  Abreast place other := place = other ∧ place ≤ pair.last
  Near place other := place = other ∧ place ≤ pair.last ∧ Nest.Inside (words.take place)
  Broken := Nest.behind [] words ≠ []
  within abreast := abreast.2
  otherWithin := by
    rintro place _ ⟨rfl, within⟩
    exact Nat.le_trans within (Nat.le_of_lt prolongs.longer)
  same := by
    rintro place _ ⟨rfl, within⟩
    rcases Nat.lt_or_eq_of_le within with before | rfl
    · exact .inl (prolongs.shared before)
    · exact .inr ⟨pair.ends.mark, prolongs.line⟩
  next := by
    rintro place _ ⟨rfl, within⟩ unended _
    exact ⟨rfl, pair.ends.lt_of_ne within unended⟩
  body := by
    rintro place _ symbol ⟨rfl, within⟩ here opens
    have before := pair.ends.lt_of_ne within (by rw [here]; exact Token.noConfusion)
    have opened := Nest.behind_opening (words.take place) opens
    have passed := prolongs.take_succ before
    rw [here] at passed
    rcases Nat.lt_or_eq_of_le (Nat.succ_le_of_lt before) with onward | final
    · refine .inr ⟨prolongs.shared onward, fun line => ⟨rfl, onward, ?_⟩⟩
      rw [prolongs.take_succ onward, line, passed, List.append_assoc]
      exact opened.2
    · left
      rw [← passed, List.take_of_length_le (Nat.le_of_eq (prolongs.length ▸ final.symm))] at opened
      exact opened.1

end Rows.Prolongs

/-! ### Statements within a bound -/

/-- The statements behind line ends, at least one, where the bound on their number is given. -/
def statementLines (level : Level) (fuel : Nat) : Rule (List Script) := do
  let _ ← skipNewlines
  let first ← register (statement level)
  collect (nextStatement level) fuel [first]

theorem collect_append {α : Type} (step : Rule (Option α)) (fuel : Nat) (recent earlier : List α) :
    collect step fuel (recent ++ earlier) =
      collect step fuel recent >>= fun found => pure (earlier.reverse ++ found) := by
  induction fuel generalizing recent with
  | zero => rfl
  | succ fuel ih =>
      unfold collect
      rw [bind_bind]
      congr 1
      funext result
      cases result with
      | none =>
          change pure (recent ++ earlier).reverse = pure (earlier.reverse ++ recent.reverse)
          rw [List.reverse_append]
      | some result => exact ih (result :: recent)

theorem statements_eq (level : Level) (tokens : Array Placed) (reading : Reading) :
    ∃ fuel, statements level tokens reading =
      (statementLines level fuel >>= fun items => current >>= fun placed =>
        pure (.list { start := (tokenAt tokens reading.cursor).start, stop := placed.stop } items))
        tokens reading := by
  unfold statements statementLines
  rw [bind_of_success (show current tokens reading = .ok (.success (tokenAt tokens reading.cursor), _)
    from rfl)]
  simp only [bind_bind]
  refine exists_bind_eq fun _ _ => exists_bind_eq fun first behind =>
    ⟨tokens.size - behind.cursor + 1, ?_⟩
  rw [show [first] = [] ++ [first] from rfl, collect_append, bind_bind]
  rfl

/-! ### Line ends in both rows -/

def Skips (tokens : Array Placed) (place passed : Nat) : Prop :=
  ∀ counts, ∃ after, skipNewlines tokens { cursor := place, counts } = .ok (.success passed, after) ∧
    after.cursor = place + passed

theorem skips_of_ahead {place passed : Nat} {rest : List Token}
    (lines : ahead tokens place = List.replicate passed .newline ++ rest)
    (final : Begins (· ≠ .newline) rest) : Skips tokens place passed := by
  intro counts
  obtain ⟨_, after, ended, left, rfl⟩ := reads_skipNewlines passed final tokens place counts lines
  refine ⟨after, ended, ?_⟩
  obtain ⟨token, behind, rfl, _⟩ := final.exists_eq_cons
  have count := length_ahead tokens place
  have countLeft := length_ahead tokens after.cursor
  rw [lines, List.length_append, List.length_replicate, List.length_cons] at count
  rw [left, List.length_cons] at countLeft
  omega

theorem nextStatement_of_skips {place passed : Nat} (skips : Skips tokens place passed)
    (level : Level) (counts : Counts) :
    ∃ after, nextStatement level tokens { cursor := place, counts } =
      (if passed = 0 then pure none else attempt (statement level)) tokens
        { cursor := place + passed, counts := after } := by
  obtain ⟨⟨_, after⟩, ended, rfl⟩ := skips counts
  refine ⟨after, ?_⟩
  unfold nextStatement
  rw [bind_of_success ended]

theorem reads_nextStatement_none (level : Level) (count : Nat) :
    Reads (nextStatement level) (List.replicate count .newline ++ [.eof]) [.eof] (· = none) := by
  have final : Begins (· ≠ .newline) [Token.eof] := Token.noConfusion
  unfold nextStatement
  refine (reads_skipNewlines count final).bind ?_
  intro passed _
  by_cases none : passed = 0
  · rw [if_pos none]
    exact reads_pure rfl
  · rw [if_neg none]
    exact (refuses_statement_eof level).attempt

variable {pair : Rows} {words more : List Token} {place : Nat}

/-- From an index on the first row has line ends only, or both have as many of them. -/
theorem Rows.Prolongs.lines_or_skips (prolongs : pair.Prolongs words more)
    (within : place ≤ pair.last) :
    (∃ count, words.drop place = List.replicate count .newline) ∨
      ∃ passed, place + passed < pair.last ∧ Skips pair.tokens place passed ∧
        Skips pair.others place passed := by
  obtain ⟨count, rest, lines, begins⟩ := Token.exists_run (words.drop place)
  cases rest with
  | nil => exact .inl ⟨count, by rw [lines, List.append_nil]⟩
  | cons token behind =>
      have final := begins (List.cons_ne_nil token behind)
      refine .inr ⟨count, ?_, ?_, ?_⟩
      · have length := congrArg List.length lines
        rw [List.length_drop, ← prolongs.length, List.length_append, List.length_replicate,
          List.length_cons] at length
        omega
      · refine skips_of_ahead ?_ (final.append [.eof])
        rw [prolongs.ahead_eq within, lines, List.append_assoc]
      · refine skips_of_ahead ?_ (final.append (.newline :: more))
        rw [prolongs.otherAhead_eq within, lines, List.append_assoc]

/-! ### Statements in both rows -/

/-- How the statements of a row and of one that goes on can end: in the same way, before the end of
the first row; or with the first row, and then the other one is still looking for statements, at an
index from which the first one has line ends only. -/
inductive Continues (prolongs : pair.Prolongs words more) (level : Level) :
    Except Crash (Reply (List Script) × Reading) → Except Crash (Reply (List Script) × Reading) →
      Prop where
  | alike {answer otherAnswer : Except Crash (Reply (List Script) × Reading)}
      (corresponds : prolongs.versions.Corresponds (List.map Tree.bare) answer otherAnswer)
      (early : ∀ {results after}, answer = .ok (.success results, after) →
        after.cursor < pair.last) : Continues prolongs level answer otherAnswer
  | broken {answer otherAnswer : Except Crash (Reply (List Script) × Reading)}
      (broken : Nest.behind [] words ≠ []) : Continues prolongs level answer otherAnswer
  | tooDeep {answer : Except Crash (Reply (List Script) × Reading)} :
      Continues prolongs level answer (.error .tooDeep)
  | ended {results collected : List Script} {after : Reading} {place fuel count : Nat}
      {counts : Counts} (stopped : after.cursor = pair.last)
      (same : results.map Tree.bare = collected.reverse.map Tree.bare) (within : place ≤ pair.last)
      (lines : words.drop place = List.replicate count .newline) :
      Continues prolongs level (.ok (.success results, after))
        (collect (nextStatement level) (fuel + 1) collected pair.others { cursor := place, counts })

section

variable {prolongs : pair.Prolongs words more} {depth otherDepth : Nat}

theorem Continues.bind {α γ : Type} {first otherFirst : Rule α} {view : α → γ}
    {next otherNext : α → Rule (List Script)} {reading otherReading : Reading}
    (corresponds : prolongs.versions.Corresponds view (first pair.tokens reading)
      (otherFirst pair.others otherReading))
    (goesOn : ∀ {result otherResult counts otherCounts stop},
      first pair.tokens reading = .ok (.success result, { cursor := stop, counts }) →
      view result = view otherResult → stop ≤ pair.last →
      Continues prolongs level (next result pair.tokens { cursor := stop, counts })
        (otherNext otherResult pair.others { cursor := stop, counts := otherCounts })) :
    Continues prolongs level ((first >>= next) pair.tokens reading)
      ((otherFirst >>= otherNext) pair.others otherReading) := by
  generalize ended : first pair.tokens reading = answer at corresponds goesOn
  generalize otherEnded : otherFirst pair.others otherReading = otherAnswer at corresponds
  cases corresponds with
  | @success result otherResult after otherAfter same abreast =>
      rw [bind_of_success ended, bind_of_success otherEnded]
      obtain ⟨sameCursor, onward⟩ := abreast
      obtain ⟨_, otherCounts⟩ := otherAfter
      cases sameCursor
      exact goesOn rfl same onward
  | failure =>
      rw [bind_of_failure ended, bind_of_failure otherEnded]
      exact .alike .failure fun answered => by cases answered
  | crashed =>
      rw [bind_of_error ended, bind_of_error otherEnded]
      exact .alike .crashed fun answered => by cases answered
  | tooDeep =>
      rw [bind_of_error ended]
      exact .alike .tooDeep fun answered => by cases answered
  | otherTooDeep =>
      rw [bind_of_error otherEnded]
      exact .tooDeep
  | broken broken => exact .broken broken

section

variable (below : prolongs.versions.Below (Level.of depth) (Level.of otherDepth))

include below

/-- The first row ends behind line ends, or both rows go on with the same statement or have none to
go on with before the first one ends. -/
theorem nextStatement_continues (within : place ≤ pair.last) (counts otherCounts : Counts) :
    (∃ after count, nextStatement (Level.of depth) pair.tokens { cursor := place, counts } =
        .ok (.success none, after) ∧ after.cursor = pair.last ∧
      words.drop place = List.replicate count .newline) ∨
    prolongs.versions.Corresponds (Option.map Tree.bare)
        (nextStatement (Level.of depth) pair.tokens { cursor := place, counts })
        (nextStatement (Level.of otherDepth) pair.others
          { cursor := place, counts := otherCounts }) ∧
      ∀ {after}, nextStatement (Level.of depth) pair.tokens { cursor := place, counts } =
        .ok (.success none, after) → after.cursor < pair.last := by
  rcases prolongs.lines_or_skips within with ⟨count, lines⟩ | ⟨passed, before, skips, otherSkips⟩
  · left
    have rest := prolongs.ahead_eq within
    rw [lines] at rest
    obtain ⟨_, after, ended, left, rfl⟩ := reads_nextStatement_none (Level.of depth) count
      pair.tokens place counts rest
    refine ⟨after, count, ended, ?_, lines⟩
    have size := prolongs.size
    have length := length_ahead pair.tokens after.cursor
    rw [left, List.length_singleton] at length
    omega
  · right
    have onward : place + passed ≤ pair.last := Nat.le_of_lt before
    obtain ⟨countsAfter, next⟩ := nextStatement_of_skips skips (Level.of depth) counts
    obtain ⟨otherAfter, otherNext⟩ :=
      nextStatement_of_skips otherSkips (Level.of otherDepth) otherCounts
    rw [next, otherNext]
    by_cases none : passed = 0
    · rw [if_pos none, if_pos none]
      refine ⟨.success rfl ⟨rfl, onward⟩, fun ended => ?_⟩
      cases ended
      exact before
    · rw [if_neg none, if_neg none]
      have abreast : prolongs.versions.Abreast (place + passed) (place + passed) := ⟨rfl, onward⟩
      have balanced := IsRule.statement.keeps pair.ends depth onward
      refine ⟨((agree_statement below abreast).attempt abreast balanced
        (IsRule.statement.keeps pair.otherEnds otherDepth
          (prolongs.versions.otherWithin abreast))) countsAfter otherAfter, fun ended => ?_⟩
      -- What was tried in vain has been given back.
      rw [((balanced.attempt onward).reached ended).2.2]
      exact before

theorem continues_collect (fuel otherFuel : Nat) (collected otherCollected : List Script)
    (place : Nat) (counts otherCounts : Counts)
    (same : collected.map Tree.bare = otherCollected.map Tree.bare) (within : place ≤ pair.last) :
    Continues prolongs (Level.of otherDepth)
      (collect (nextStatement (Level.of depth)) fuel collected pair.tokens
        { cursor := place, counts })
      (collect (nextStatement (Level.of otherDepth)) otherFuel otherCollected pair.others
        { cursor := place, counts := otherCounts }) := by
  induction fuel generalizing otherFuel collected otherCollected place counts otherCounts with
  | zero => exact .alike .tooDeep fun ended => by cases ended
  | succ fuel ih =>
      cases otherFuel with
      | zero => exact .tooDeep
      | succ otherFuel =>
          have alike : collected.reverse.map Tree.bare = otherCollected.reverse.map Tree.bare := by
            rw [List.map_reverse, List.map_reverse, same]
          rcases nextStatement_continues below within counts otherCounts with
            ⟨after, count, next, stopped, lines⟩ | ⟨corresponds, early⟩
          · have stops : collect (nextStatement (Level.of depth)) (fuel + 1) collected pair.tokens
                { cursor := place, counts } = .ok (.success collected.reverse, after) := by
              rw [collect, bind_of_success next]
              rfl
            rw [stops]
            exact .ended stopped alike within lines
          · rw [collect, collect]
            refine Continues.bind corresponds fun {result otherResult} _ _ _ next sameResult onward => ?_
            cases result with
            | none =>
                cases otherResult with
                | none =>
                    refine .alike (.success alike ⟨rfl, onward⟩) fun ended => ?_
                    cases ended
                    exact early next
                | some otherResult => cases sameResult
            | some result =>
                cases otherResult with
                | none => cases sameResult
                | some otherResult =>
                    refine ih otherFuel _ _ _ _ _ ?_ onward
                    rw [List.map_cons, List.map_cons, same, Option.some.inj sameResult]

theorem continues_statementLines (within : place ≤ pair.last) (fuel otherFuel : Nat)
    (counts otherCounts : Counts) :
    (∃ count, words.drop place = List.replicate count .newline) ∨
      Continues prolongs (Level.of otherDepth)
        (statementLines (Level.of depth) fuel pair.tokens { cursor := place, counts })
        (statementLines (Level.of otherDepth) otherFuel pair.others
          { cursor := place, counts := otherCounts }) := by
  rcases prolongs.lines_or_skips within with lines | ⟨passed, before, skips, otherSkips⟩
  · exact .inl lines
  · right
    obtain ⟨⟨_, countsAfter⟩, skipped, rfl⟩ := skips counts
    obtain ⟨⟨_, otherAfter⟩, otherSkipped, rfl⟩ := otherSkips otherCounts
    rw [statementLines, statementLines, bind_of_success skipped, bind_of_success otherSkipped]
    have abreast : prolongs.versions.Abreast _ _ := ⟨rfl, Nat.le_of_lt before⟩
    refine Continues.bind ((agree_statement below abreast).register countsAfter otherAfter) ?_
    intro _ _ _ _ _ _ same onward
    exact continues_collect below _ _ _ _ _ _ _ (congrArg (· :: []) same) onward

/-- The statements of a body do not reach the end of the first row, unless something is left open
there. -/
theorem agree_body_statements {other : Nat} (near : prolongs.versions.Near place other) :
    prolongs.versions.Agree (statements (Level.of depth)) (statements (Level.of otherDepth)) place
      other Tree.bare := by
  obtain ⟨rfl, within, inside⟩ := near
  intro counts otherCounts
  have open_of_closes : ∀ {plain : Prop}, Closes plain (words.drop place) →
      Nest.behind [] words ≠ [] := by
    intro plain closes
    have left := inside.append closes
    rwa [List.take_append_drop] at left
  obtain ⟨fuel, read⟩ := statements_eq (Level.of depth) pair.tokens { cursor := place, counts }
  obtain ⟨otherFuel, otherRead⟩ := statements_eq (Level.of otherDepth) pair.others
    { cursor := place, counts := otherCounts }
  rcases continues_statementLines below within fuel otherFuel counts otherCounts with
    ⟨count, lines⟩ | continues
  · refine .broken (open_of_closes (closes_lineEnds ?_ : Closes True _))
    rw [lines]
    exact fun _ => List.eq_of_mem_replicate
  · change prolongs.versions.Corresponds _ (statements _ pair.tokens _) (statements _ pair.others _)
    generalize ended : statementLines (Level.of depth) fuel pair.tokens _ = answer at continues
    generalize otherEnded : statementLines (Level.of otherDepth) otherFuel pair.others _ =
      otherAnswer at continues
    cases continues with
    | alike corresponds early =>
        rw [read, otherRead]
        rw [← ended, ← otherEnded] at corresponds
        refine corresponds.bind fun _ _ _ _ same abreast _ _ => .success ?_ abreast
        rw [Tree.bare, Tree.bare, Tree.bareAll_eq_map, Tree.bareAll_eq_map, same]
    | broken broken => exact .broken broken
    | tooDeep =>
        rw [otherRead, bind_of_error otherEnded]
        exact .otherTooDeep
    | ended stopped same reached lines =>
        rw [bind_of_success ended] at read
        have written := ((keeps_statements pair.ends (below_of pair.ends depth (place + 1))
          within).balanced.reached read).2.2
        rw [stopped] at written
        exact .broken (open_of_closes (prolongs.between_eq within ▸ written.2.closes))

end

end

/-! ### The second script -/

theorem Rows.near_of_ahead {other count : Nat} (within : place ≤ pair.last)
    (otherWithin : other ≤ pair.otherLast)
    (lines : ahead pair.others other = List.replicate count .newline ++ ahead pair.tokens place) :
    pair.Near place other := by
  refine ⟨within, otherWithin, ?_⟩
  obtain ⟨more, rest, rows, final⟩ := Token.exists_lines (eof_mem_ahead pair.ends within)
  rw [lines, rows, ← List.append_assoc, List.replicate_append_replicate,
    Token.dropWhile_collapse final, Token.dropWhile_collapse final]

theorem agree_statementLines {depth otherDepth other : Nat} (near : pair.Near place other)
    (fuel otherFuel : Nat) :
    pair.lines.Agree (statementLines (Level.of depth) fuel)
      (statementLines (Level.of otherDepth) otherFuel) place other (List.map Tree.bare) := by
  have below : pair.lines.Below (Level.of depth) (Level.of otherDepth) :=
    below_of_levels agree_statements depth otherDepth
  refine near.agree_skipNewlines.bind ?_
  intro _ _ _ _ _ abreast
  refine (agree_statement below abreast).register.bind ?_
  intro first otherFirst _ _ same firstRead
  exact agree_collect (fun _ _ onward => agree_nextStatement below onward) _ _ _ _ _ _
    (congrArg (· :: []) same) firstRead

theorem attempt_eq {α : Type} {part : Rule α} {reading : Reading}
    (read : ∀ fault behind, register part tokens reading ≠ .ok (.failure fault, behind)) :
    attempt part tokens reading =
      (register part >>= fun result => pure (some result)) tokens reading := by
  change _ = Rule.bind (register part) _ tokens reading
  unfold Rule.bind attempt
  unfold register at read ⊢
  generalize part tokens { cursor := reading.cursor, counts := {} } = answer at read ⊢
  cases answer with
  | error cause => rfl
  | ok answer =>
      obtain ⟨reply, after⟩ := answer
      cases reply with
      | success result => rfl
      | failure fault => exact absurd rfl (read _ _)

/-- Statements behind a line end are collected, unless none can be read there. -/
theorem collect_of_statementLines {passed fuel : Nat} {counts : Counts}
    (skips : Skips tokens place passed) (some : passed ≠ 0) (collected : List Script)
    (read : ∀ fault after, statementLines level fuel tokens { cursor := place, counts } ≠
      .ok (.failure fault, after)) :
    collect (nextStatement level) (fuel + 1) collected tokens { cursor := place, counts } =
      (statementLines level fuel >>= fun items => pure (collected.reverse ++ items)) tokens
        { cursor := place, counts } := by
  obtain ⟨after, skipped, _⟩ := skips counts
  rw [statementLines, bind_of_success skipped] at read
  have next : nextStatement level tokens { cursor := place, counts } =
      (register (statement level) >>= fun first => pure (Option.some first)) tokens after := by
    rw [nextStatement, bind_of_success skipped, if_neg some]
    exact attempt_eq fun fault behind failed => read fault behind (bind_of_failure failed)
  rw [collect, statementLines, bind_bind, bind_of_success skipped, bind_bind, bind_of_eq next,
    bind_bind]
  exact congrArg (fun next => (register (statement level) >>= next) tokens after)
    (funext fun first => collect_append (nextStatement level) fuel [first] collected)

/-- A script of more than its end mark consists of statements, within some bound. -/
theorem script_eq (level : Level) (several : tokens.size ≠ 1) (reading : Reading) :
    ∃ fuel, script level tokens reading =
      (statementLines level fuel >>= fun items => current >>= fun placed =>
        if placed.token.isEof then
          pure (.list { start := (tokenAt tokens reading.cursor).start, stop := placed.stop } items)
        else fail .operator) tokens reading := by
  obtain ⟨fuel, read⟩ := statements_eq level tokens reading
  refine ⟨fuel, ?_⟩
  have opened : script level tokens reading = (statements level >>= fun tree =>
      current >>= fun placed => if placed.token.isEof then pure tree else fail .operator) tokens
        reading := by
    unfold script
    change (if _ then _ else _ : Rule Script) tokens reading = _
    rw [if_neg fun alone => several alone.1]
  rw [opened, bind_of_eq read, bind_bind]
  rfl

theorem statementLines_of_script {reading after : Reading} {tree : Script}
    (several : tokens.size ≠ 1) (read : script level tokens reading = .ok (.success tree, after)) :
    ∃ fuel items, statementLines level fuel tokens reading = .ok (.success items, after) ∧
      tree.bare = .list () (items.map Tree.bare) ∧ (tokenAt tokens after.cursor).token = .eof := by
  obtain ⟨fuel, opened⟩ := script_eq level several reading
  rw [opened] at read
  obtain ⟨items, middle, begun, rest⟩ := of_bind_success read
  refine ⟨fuel, items, ?_⟩
  change (if (tokenAt tokens middle.cursor).token.isEof = true then _ else _ : Rule Script) tokens
    middle = _ at rest
  by_cases mark : (tokenAt tokens middle.cursor).token.isEof = true
  · rw [if_pos mark] at rest
    cases rest
    refine ⟨begun, ?_, isEof_iff.mp mark⟩
    rw [Tree.bare, Tree.bareAll_eq_map]
  · rw [if_neg mark] at rest
    cases rest

theorem statementLines_of_near {depth otherDepth other fuel : Nat} {counts : Counts}
    {tree : Script} {after : Reading} (several : pair.tokens.size ≠ 1)
    (read : script (Level.of depth) pair.tokens { cursor := 0, counts := {} } =
      .ok (.success tree, after)) (near : pair.Near 0 other) :
    statementLines (Level.of otherDepth) fuel pair.others { cursor := other, counts } =
      .error .tooDeep ∨
    ∃ items after, statementLines (Level.of otherDepth) fuel pair.others
        { cursor := other, counts } = .ok (.success items, after) ∧
      tree.bare = .list () (items.map Tree.bare) ∧
      (tokenAt pair.others after.cursor).token = .eof := by
  obtain ⟨bound, items, ended, written, mark⟩ := statementLines_of_script several read
  have corresponds : pair.lines.Corresponds (List.map Tree.bare)
      (statementLines (Level.of depth) bound pair.tokens _)
      (statementLines (Level.of otherDepth) fuel pair.others _) :=
    agree_statementLines near bound fuel {} counts
  rw [ended] at corresponds
  generalize statementLines (Level.of otherDepth) fuel pair.others _ = answer at corresponds ⊢
  cases corresponds with
  | @success _ otherItems _ otherAfter same abreast =>
      refine .inr ⟨otherItems, otherAfter, rfl, ?_, ?_⟩
      · rw [written, same]
      · rw [← Rows.Abreast.same_token abreast, mark]
  | otherTooDeep => exact .inl rfl
  | broken broken => exact broken.elim

theorem statementLines_ne_success {count fuel : Nat} {counts : Counts} {items : List Script}
    {after : Reading} (lines : ahead tokens place = List.replicate count .newline ++ [.eof]) :
    statementLines level fuel tokens { cursor := place, counts } ≠ .ok (.success items, after) := by
  have final : Begins (· ≠ .newline) [Token.eof] := Token.noConfusion
  obtain ⟨_, middle, skipped, left, _⟩ := reads_skipNewlines count final tokens place counts lines
  obtain ⟨fault, behind, refused, _⟩ :=
    (refuses_statement_eof level).register tokens middle.cursor middle.counts left
  rw [statementLines, bind_of_success skipped, bind_of_failure refused]
  intro same
  cases same

theorem bare_of_run_script_nil {tokens : List Placed} {tree : Script} {after : Reading}
    (written : tokens.map Placed.token = [.eof])
    (read : run script tokens = .ok (.success tree, after)) : tree.bare = .list () [] := by
  obtain ⟨placed, rfl, here⟩ := List.map_eq_singleton_iff.mp written
  unfold run script at read
  change (if _ then _ else _ : Rule Script) _ _ = _ at read
  rw [if_pos ⟨rfl, isEof_iff.mpr here⟩] at read
  cases read
  rfl

section

variable {second : List Placed} {others : List Token} {tokens : Array Placed} {last : Nat}
  {tree : Script} {after : Reading}

/-- A row in which the tokens of a script lie ahead behind line ends. -/
def rowsBehind (ends : EndsAt tokens last) (written : second.map Placed.token = others ++ [.eof])
    (once : .eof ∉ others) : Rows where
  tokens := second.toArray
  others := tokens
  last := others.length
  otherLast := last
  ends := endsAt_of_map written once
  otherEnds := ends

theorem collect_of_script (ends : EndsAt tokens last)
    (written : second.map Placed.token = others ++ [.eof]) (once : .eof ∉ others)
    (read : run script second = .ok (.success tree, after)) {count : Nat} (within : place ≤ last)
    (rest : ahead tokens place = List.replicate (count + 1) .newline ++ (others ++ [.eof]))
    (depth fuel : Nat) (collected : List Script) (counts : Counts) :
    collect (nextStatement (Level.of depth)) (fuel + 1) collected tokens
        { cursor := place, counts } = .error .tooDeep ∨
      ∃ items behind, collect (nextStatement (Level.of depth)) (fuel + 1) collected tokens
          { cursor := place, counts } = .ok (.success (collected.reverse ++ items), behind) ∧
        tree.bare = .list () (items.map Tree.bare) ∧
        (tokenAt tokens behind.cursor).token = .eof := by
  cases others with
  | nil =>
      right
      obtain ⟨_, behind, next, left, rfl⟩ :=
        reads_nextStatement_none (Level.of depth) (count + 1) tokens place counts rest
      refine ⟨[], behind, ?_, bare_of_run_script_nil written read, tokenAt_of_ahead left⟩
      rw [collect, bind_of_success next, List.append_nil]
      rfl
  | cons token others =>
      have several : second.toArray.size ≠ 1 := by
        have length := congrArg List.length written
        simp only [List.length_map, List.length_append, List.length_cons] at length
        change second.length ≠ 1
        omega
      obtain ⟨run, behind, lines, final⟩ := Token.exists_lines
        (List.mem_append_right (token :: others) List.mem_cons_self : Token.eof ∈ _)
      have skips : Skips tokens place (count + 1 + run) := by
        refine skips_of_ahead ?_ final
        rw [rest, lines, ← List.append_assoc, List.replicate_append_replicate]
      have near : (rowsBehind ends written once).Near 0 place :=
        Rows.near_of_ahead (Nat.zero_le _) within (rest.trans (congrArg _ written.symm))
      rcases @statementLines_of_near (rowsBehind ends written once) _ depth place fuel counts tree
        after several read near with deep | ⟨items, behind, ended, bare, mark⟩
      · left
        rw [collect_of_statementLines skips (by omega) collected]
        · exact bind_of_error deep
        · intro fault behind failed
          cases deep.symm.trans failed
      · refine .inr ⟨items, behind, ?_, bare, mark⟩
        rw [collect_of_statementLines skips (by omega) collected]
        · exact bind_of_success ended
        · intro fault behind failed
          cases ended.symm.trans failed

end

/-! ### Both scripts -/

/-- Statements were read up to the end mark, and they are those of two scripts. -/
structure ReadsBoth (tokens : Array Placed) (first second : Script) (all : List Script)
    (after : Reading) : Prop where
  both : ∃ items others, first.bare = .list () items ∧ second.bare = .list () others ∧
    all.map Tree.bare = items ++ others
  mark : (tokenAt tokens after.cursor).token = .eof

section

variable {first second joined : List Placed} {others : List Token} {firstTree secondTree : Script}
  {firstAfter secondAfter : Reading} {depth fuel : Nat}

theorem several_of_ne_nil {tokens : List Placed} (written : tokens.map Placed.token = words ++ [.eof])
    (some : words ≠ []) : tokens.toArray.size ≠ 1 := by
  have length := congrArg List.length written
  rw [List.length_map, List.length_append, List.length_singleton] at length
  have positive := List.length_pos_iff.mpr some
  change tokens.length ≠ 1
  omega

/-- The first script is empty: the second one is read behind a line end. -/
theorem readsBoth_of_nil (firstWritten : first.map Placed.token = [.eof])
    (secondWritten : second.map Placed.token = others ++ [.eof]) (secondOnce : .eof ∉ others)
    (some : others ≠ []) (joinedWritten : joined.map Placed.token = .newline :: (others ++ [.eof]))
    (firstRead : run script first = .ok (.success firstTree, firstAfter))
    (secondRead : run script second = .ok (.success secondTree, secondAfter)) :
    statementLines (Level.of depth) fuel joined.toArray { cursor := 0, counts := {} } =
        .error .tooDeep ∨
      ∃ all after, statementLines (Level.of depth) fuel joined.toArray
          { cursor := 0, counts := {} } = .ok (.success all, after) ∧
        ReadsBoth joined.toArray firstTree secondTree all after := by
  have ends : EndsAt joined.toArray (.newline :: others).length :=
    endsAt_of_map (show joined.map Placed.token = (.newline :: others) ++ [.eof] from joinedWritten)
      (by simpa using secondOnce)
  let pair := rowsBehind ends secondWritten secondOnce
  have rest : ahead pair.others 0 = List.replicate 1 .newline ++ ahead pair.tokens 0 :=
    joinedWritten.trans (congrArg (Token.newline :: ·) secondWritten.symm)
  rcases @statementLines_of_near pair _ depth 0 fuel {} secondTree secondAfter
      (several_of_ne_nil secondWritten some) secondRead
      (Rows.near_of_ahead (Nat.zero_le _) (Nat.zero_le _) rest) with
    deep | ⟨items, after, ended, bare, mark⟩
  · exact .inl deep
  · exact .inr ⟨items, after, ended,
      ⟨[], items.map Tree.bare, bare_of_run_script_nil firstWritten firstRead, bare, rfl⟩, mark⟩

/-- The first script has statements: those of the second one follow them. -/
theorem readsBoth_of_prolongs (prolongs : pair.Prolongs words (others ++ [.eof]))
    (some : words ≠ []) (closed : Nest.behind [] words = [])
    (firstRead : script (Level.of depth) pair.tokens { cursor := 0, counts := {} } =
      .ok (.success firstTree, firstAfter))
    (secondWritten : second.map Placed.token = others ++ [.eof]) (secondOnce : .eof ∉ others)
    (secondRead : run script second = .ok (.success secondTree, secondAfter)) {otherDepth : Nat} :
    statementLines (Level.of otherDepth) fuel pair.others { cursor := 0, counts := {} } =
        .error .tooDeep ∨
      ∃ all after, statementLines (Level.of otherDepth) fuel pair.others
          { cursor := 0, counts := {} } = .ok (.success all, after) ∧
        ReadsBoth pair.others firstTree secondTree all after := by
  have several : pair.tokens.size ≠ 1 := by
    have positive := List.length_pos_iff.mpr some
    rw [prolongs.size, prolongs.length]
    omega
  obtain ⟨bound, items, ended, firstBare, mark⟩ := statementLines_of_script several firstRead
  have below : prolongs.versions.Below (Level.of depth) (Level.of otherDepth) :=
    below_of_levels (fun below => agree_body_statements below) depth otherDepth
  rcases continues_statementLines below (Nat.zero_le _) bound
      fuel {} {} with ⟨count, lines⟩ | continues
  · have rest := prolongs.ahead_eq (Nat.zero_le _)
    rw [lines] at rest
    exact absurd ended (statementLines_ne_success rest)
  · rw [ended] at continues
    generalize otherEnded : statementLines (Level.of otherDepth) fuel pair.others _ = answer
      at continues ⊢
    cases continues with
    | alike _ early => exact absurd mark (pair.ends.before _ (early rfl))
    | broken broken => exact absurd closed broken
    | tooDeep => exact .inl rfl
    | @ended _ collected _ place fuel count counts _ same within lines =>
        have rest : ahead pair.others place =
            List.replicate (count + 1) .newline ++ (others ++ [.eof]) := by
          rw [prolongs.otherAhead_eq within, lines, List.replicate_succ', List.append_assoc]
          rfl
        rcases collect_of_script pair.otherEnds secondWritten secondOnce secondRead
            (Nat.le_trans within (Nat.le_of_lt prolongs.longer)) rest otherDepth fuel collected
            counts with deep | ⟨more, behind, went, secondBare, otherMark⟩
        · exact .inl deep
        · refine .inr ⟨_, behind, went, ⟨_, _, firstBare, secondBare, ?_⟩, otherMark⟩
          rw [List.map_append, same]

end

/-- Scripts compose.  Let the end mark stand at the end of two scripts and nowhere else, let one of
them have other tokens too, and let no branch of the first one have a body on lines of its own.
Joined by a line end, they are accepted with the statements of both. -/
theorem script_of_joined (first second joined : List Placed) (words others : List Token)
    (firstWritten : first.map Placed.token = words ++ [.eof]) (firstOnce : .eof ∉ words)
    (secondWritten : second.map Placed.token = others ++ [.eof]) (secondOnce : .eof ∉ others)
    (some : words ≠ [] ∨ others ≠ [])
    (joinedWritten : joined.map Placed.token = words ++ .newline :: (others ++ [.eof]))
    (firstTree secondTree : Script) (firstAfter secondAfter : Reading)
    (firstRead : run script first = .ok (.success firstTree, firstAfter))
    (secondRead : run script second = .ok (.success secondTree, secondAfter))
    (plain : firstTree.bare.Plain) :
    ∃ tree after items otherItems, run script joined = .ok (.success tree, after) ∧
      firstTree.bare = .list () items ∧ secondTree.bare = .list () otherItems ∧
      tree.bare = .list () (items ++ otherItems) := by
  have joinedMap : joined.map Placed.token = (words ++ .newline :: others) ++ [.eof] := by
    rw [joinedWritten, List.append_assoc]
    rfl
  have ends := endsAt_of_map firstWritten firstOnce
  have joinedEnds := endsAt_of_map joinedMap (by simpa using ⟨firstOnce, secondOnce⟩)
  obtain ⟨fuel, opened⟩ := script_eq (Level.of (joined.length + 1))
    (several_of_ne_nil joinedMap (by simp)) { cursor := 0, counts := {} }
  have read : statementLines (Level.of (joined.length + 1)) fuel joined.toArray
        { cursor := 0, counts := {} } = .error .tooDeep ∨
      ∃ all after, statementLines (Level.of (joined.length + 1)) fuel joined.toArray
          { cursor := 0, counts := {} } = .ok (.success all, after) ∧
        ReadsBoth joined.toArray firstTree secondTree all after := by
    by_cases nothing : words = []
    · subst nothing
      exact readsBoth_of_nil firstWritten secondWritten secondOnce (by simpa using some)
        joinedWritten firstRead secondRead
    · let pair : Rows :=
        { tokens := first.toArray, others := joined.toArray, last := words.length
          otherLast := (words ++ .newline :: others).length, ends, otherEnds := joinedEnds }
      have prolongs : pair.Prolongs words (others ++ [.eof]) := ⟨firstWritten, joinedWritten, rfl⟩
      have phrase := ((keeps_script ends _).reached firstRead).2.2
      rw [phrase.1, between_whole firstWritten] at phrase
      exact readsBoth_of_prolongs prolongs nothing (phrase.2.behind_nil plain) firstRead secondWritten
        secondOnce secondRead
  rcases read with deep | ⟨all, after, ended, ⟨items, otherItems, firstBare, secondBare, same⟩, mark⟩
  · cases cause_of_run_script joinedEnds (opened.trans (bind_of_error deep))
  · rw [bind_of_success ended] at opened
    change run script joined = (if _ then _ else _ : Rule Script) _ _ at opened
    rw [if_pos (isEof_iff.mpr mark)] at opened
    refine ⟨_, _, items, otherItems, opened, firstBare, secondBare, ?_⟩
    rw [Tree.bare, Tree.bareAll_eq_map, same]

/-- A loop around a branch on one line, and a statement behind it. -/
theorem script_of_joined_loop :
    ∃ loop : Bare, loop.Plain ∧
      (∃ tree after, run script (unplaced [.keyword .whileWord, .int 0, .symbol .colon, .newline,
          .keyword .ifWord, .int 1, .symbol .colon, .keyword .breakWord, .newline, .keyword .endWord,
          .eof]) = .ok (.success tree, after) ∧ tree.bare = .list () [loop]) ∧
      ∃ tree after, run script (unplaced [.keyword .whileWord, .int 0, .symbol .colon, .newline,
          .keyword .ifWord, .int 1, .symbol .colon, .keyword .breakWord, .newline, .keyword .endWord,
          .newline, .keyword .continueWord, .eof]) = .ok (.success tree, after) ∧
        tree.bare = .list () [loop, .skip ()] := by
  have number : ∀ n, Tree.Plain (.number () (.int n)) :=
    fun _ => .intro trivial (List.forall_mem_nil _)
  have leave : Tree.Plain (.leave ()) := .intro trivial (List.forall_mem_nil _)
  have branch : Tree.Plain (.branch () [(.number () (.int 1), .leave (), false)] none) :=
    .intro (by simp [Tree.branchesInline])
      (List.forall_mem_cons.mpr ⟨number 1, List.forall_mem_singleton.mpr leave⟩)
  have body : Tree.Plain (.list () [.branch () [(.number () (.int 1), .leave (), false)] none]) :=
    .intro trivial (List.forall_mem_singleton.mpr branch)
  have loop : Tree.Plain (.loop () (.number () (.int 0))
      (.list () [.branch () [(.number () (.int 1), .leave (), false)] none]) true) :=
    .intro trivial (List.forall_mem_cons.mpr ⟨number 0, List.forall_mem_singleton.mpr body⟩)
  have digit : ∀ value < 10, (Literal.int value).token.Writable := fun _ small =>
    Nat.lt_of_lt_of_le small (Nat.le_self_pow (by decide) 10)
  have formed : Tree.FormedLines [.loop () (.number () (.int 0))
      (.list () [.branch () [(.number () (.int 1), .leave (), false)] none]) true] := by
    simp [Tree.Formed, Tree.FormedBlock, Tree.FormedLines, Tree.FormedCases, Tree.FormedFinal,
      Tree.isCommand, digit]
  have loopTokens : (unplaced [.keyword .whileWord, .int 0, .symbol .colon, .newline,
      .keyword .ifWord, .int 1, .symbol .colon, .keyword .breakWord, .newline, .keyword .endWord,
      .eof]).map Placed.token = _ := rfl
  obtain ⟨first, firstAfter, firstRead, firstBare⟩ := run_script_of_states loopTokens formed.written
  have skipTokens : (unplaced [.keyword .continueWord, .eof]).map Placed.token =
    separated .newline ([([Token.keyword .continueWord], Tree.skip ())].map Prod.fst) ++ [.eof] := rfl
  obtain ⟨second, secondAfter, secondRead, secondBare⟩ := run_script_of_states skipTokens
    (List.forall_mem_singleton.mpr states_skip)
  obtain ⟨tree, after, items, others, read, sameFirst, sameSecond, both⟩ := script_of_joined _ _
    (unplaced [.keyword .whileWord, .int 0, .symbol .colon, .newline, .keyword .ifWord, .int 1,
      .symbol .colon, .keyword .breakWord, .newline, .keyword .endWord, .newline,
      .keyword .continueWord, .eof])
    [.keyword .whileWord, .int 0, .symbol .colon, .newline, .keyword .ifWord, .int 1,
      .symbol .colon, .keyword .breakWord, .newline, .keyword .endWord] [.keyword .continueWord]
    rfl (by simp) rfl (by simp) (by simp) rfl _ _ _ _ firstRead secondRead
    (firstBare ▸ .intro trivial (List.forall_mem_singleton.mpr loop))
  refine ⟨_, loop, ⟨first, firstAfter, firstRead, firstBare⟩, tree, after, read, ?_⟩
  rw [firstBare] at sameFirst
  rw [secondBare] at sameSecond
  cases sameFirst
  cases sameSecond
  exact both

end Grammar

end Lingo
