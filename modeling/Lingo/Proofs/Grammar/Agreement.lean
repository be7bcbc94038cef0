/-
Two versions of a row of tokens, read side by side.

A rule that begins where both versions are abreast ends in both in the same way: abreast again,
with results that look the same, with an error, or with the same crash.  How many levels and
repetitions a version allows does not matter, unless one of them runs out.
-/

import Lingo.Proofs.Grammar.Accounting
import Lingo.Proofs.Grammar.Success

namespace Lingo

open Rule

variable {token : Token}

namespace Grammar

open Token

/-! ### Versions -/

structure Rows where
  tokens : Array Placed
  others : Array Placed
  last : Nat
  otherLast : Nat
  ends : EndsAt tokens last
  otherEnds : EndsAt others otherLast

/-- Two rows that can be read side by side.  Where the first one ends, the second one may go on with
a line end. -/
structure Versions extends Rows where
  /-- The versions go on in the same way. -/
  Abreast : Nat → Nat → Prop
  /-- In both versions statements may begin. -/
  Near : Nat → Nat → Prop
  /-- The versions do not fit together. -/
  Broken : Prop
  within : ∀ {place other}, Abreast place other → place ≤ last
  otherWithin : ∀ {place other}, Abreast place other → other ≤ otherLast
  same : ∀ {place other}, Abreast place other →
    (tokenAt tokens place).token = (tokenAt others other).token ∨
      (tokenAt tokens place).token = .eof ∧ (tokenAt others other).token = .newline
  next : ∀ {place other}, Abreast place other → (tokenAt tokens place).token ≠ .eof →
    (tokenAt tokens place).token ≠ .newline → Abreast (place + 1) (other + 1)
  /-- A body behind a token is on lines of its own in both versions, or in none. -/
  body : ∀ {place other} {symbol : Symbol}, Abreast place other →
    (tokenAt tokens place).token = .symbol symbol → symbol = .colon ∨ symbol = .leftCurly →
      Broken ∨ (tokenAt tokens (place + 1)).token = (tokenAt others (other + 1)).token ∧
        ((tokenAt tokens (place + 1)).token = .newline → Near (place + 2) (other + 2))

namespace Versions

variable {α β γ δ : Type} {pair : Versions} {place other : Nat} {expected : Expectation}

theorem blind (abreast : pair.Abreast place other) (test : Token → γ)
    (alike : test .eof = test .newline) :
    test (tokenAt pair.tokens place).token = test (tokenAt pair.others other).token := by
  rcases pair.same abreast with same | ⟨mark, line⟩
  · rw [same]
  · rw [mark, line, alike]

/-! ### Agreement -/

/-- Two answers to the same rule correspond: both versions go on abreast with results that look
the same, both fail, or both crash for the same cause; or a bound was too small in one of them, or
they do not fit together. -/
inductive Corresponds (pair : Versions) (view : α → γ) :
    Except Crash (Reply α × Reading) → Except Crash (Reply α × Reading) → Prop where
  | success {result otherResult : α} {after otherAfter : Reading}
      (same : view result = view otherResult)
      (abreast : pair.Abreast after.cursor otherAfter.cursor) :
      Corresponds pair view (.ok (.success result, after)) (.ok (.success otherResult, otherAfter))
  | failure {fault otherFault : SyntaxFault} {after otherAfter : Reading} :
      Corresponds pair view (.ok (.failure fault, after)) (.ok (.failure otherFault, otherAfter))
  | crashed {cause : Crash} : Corresponds pair view (.error cause) (.error cause)
  | tooDeep {answer : Except Crash (Reply α × Reading)} :
      Corresponds pair view (.error .tooDeep) answer
  | otherTooDeep {answer : Except Crash (Reply α × Reading)} :
      Corresponds pair view answer (.error .tooDeep)
  | broken {answer otherAnswer : Except Crash (Reply α × Reading)} (broken : pair.Broken) :
      Corresponds pair view answer otherAnswer

/-- A rule in one version and a rule in the other agree from two indices on. -/
def Agree (pair : Versions) (rule otherRule : Rule α) (place other : Nat) (view : α → γ) : Prop :=
  ∀ counts otherCounts : Counts,
    pair.Corresponds view (rule pair.tokens { cursor := place, counts })
      (otherRule pair.others { cursor := other, counts := otherCounts })

variable {rule otherRule : Rule α} {view : α → γ}

theorem agree_pure {result otherResult : α} (abreast : pair.Abreast place other)
    (same : view result = view otherResult) :
    pair.Agree (pure result) (pure otherResult) place other view :=
  fun _ _ => .success same abreast

theorem agree_fail : pair.Agree (fail expected : Rule α) (fail expected) place other view :=
  fun _ _ => .failure

theorem agree_crash (cause : Crash) :
    pair.Agree (crash cause : Rule α) (crash cause) place other view :=
  fun _ _ => .crashed

theorem agree_fail_bind {next otherNext : β → Rule α} :
    pair.Agree (fail expected >>= next) (fail expected >>= otherNext) place other view :=
  fun _ _ => .failure

theorem Corresponds.bind {next otherNext : α → Rule β} {wider : β → δ}
    {reading otherReading : Reading}
    (held : pair.Corresponds view (rule pair.tokens reading) (otherRule pair.others otherReading))
    (goesOn : ∀ result otherResult stop otherStop, view result = view otherResult →
      pair.Abreast stop otherStop →
      pair.Agree (next result) (otherNext otherResult) stop otherStop wider) :
    pair.Corresponds wider ((rule >>= next) pair.tokens reading)
      ((otherRule >>= otherNext) pair.others otherReading) := by
  change pair.Corresponds wider (Rule.bind rule next _ _) (Rule.bind otherRule otherNext _ _)
  unfold Rule.bind
  generalize rule pair.tokens _ = answer at held ⊢
  generalize otherRule pair.others _ = otherAnswer at held ⊢
  cases held with
  | success same abreast => exact goesOn _ _ _ _ same abreast _ _
  | failure => exact .failure
  | crashed => exact .crashed
  | tooDeep => exact .tooDeep
  | otherTooDeep => exact .otherTooDeep
  | broken broken => exact .broken broken

theorem Agree.bind {next otherNext : α → Rule β} {wider : β → δ}
    (starts : pair.Agree rule otherRule place other view)
    (goesOn : ∀ result otherResult stop otherStop, view result = view otherResult →
      pair.Abreast stop otherStop →
      pair.Agree (next result) (otherNext otherResult) stop otherStop wider) :
    pair.Agree (rule >>= next) (otherRule >>= otherNext) place other wider :=
  fun counts otherCounts => (starts counts otherCounts).bind goesOn

theorem Agree.pure_bind {result otherResult : β} {next otherNext : β → Rule α}
    (agree : pair.Agree (next result) (otherNext otherResult) place other view) :
    pair.Agree (pure result >>= next) (pure otherResult >>= otherNext) place other view :=
  agree

theorem Agree.anyCurrent {next otherNext : Placed → Rule α}
    (agree : ∀ placed otherPlaced, pair.Agree (next placed) (otherNext otherPlaced) place other
      view) : pair.Agree (current >>= next) (current >>= otherNext) place other view :=
  fun _ _ => agree _ _ _ _

theorem Agree.look {next otherNext : Placed → Rule α}
    (same : (tokenAt pair.tokens place).token = (tokenAt pair.others other).token)
    (agree : ∀ token start stop otherStart otherStop,
      (tokenAt pair.tokens place).token = token →
      pair.Agree (next ⟨token, start, stop⟩) (otherNext ⟨token, otherStart, otherStop⟩) place
        other view) :
    pair.Agree (Rule.current >>= next) (Rule.current >>= otherNext) place other view := by
  have held := agree _ (tokenAt pair.tokens place).start (tokenAt pair.tokens place).stop
    (tokenAt pair.others other).start (tokenAt pair.others other).stop rfl
  intro counts otherCounts
  have answers := held counts otherCounts
  rw [show (⟨(tokenAt pair.tokens place).token, (tokenAt pair.others other).start,
    (tokenAt pair.others other).stop⟩ : Placed) = tokenAt pair.others other by rw [same]] at answers
  exact answers

theorem Agree.current {next otherNext : Placed → Rule α} (abreast : pair.Abreast place other)
    (parted : ∀ start stop otherStart otherStop, pair.Agree (next ⟨.eof, start, stop⟩)
      (otherNext ⟨.newline, otherStart, otherStop⟩) place other view)
    (agree : ∀ token start stop otherStart otherStop,
      (tokenAt pair.tokens place).token = token →
      pair.Agree (next ⟨token, start, stop⟩) (otherNext ⟨token, otherStart, otherStop⟩) place
        other view) :
    pair.Agree (Rule.current >>= next) (Rule.current >>= otherNext) place other view := by
  rcases pair.same abreast with same | ⟨mark, line⟩
  · exact Agree.look same agree
  · intro counts otherCounts
    have answers := parted (tokenAt pair.tokens place).start (tokenAt pair.tokens place).stop
      (tokenAt pair.others other).start (tokenAt pair.others other).stop counts otherCounts
    rw [← mark, ← line] at answers
    exact answers

theorem Agree.remaining {next otherNext : Nat → Rule α}
    (agree : ∀ fuel otherFuel, pair.Agree (next fuel) (otherNext otherFuel) place other view) :
    pair.Agree (Rule.remaining >>= next) (Rule.remaining >>= otherNext) place other view :=
  fun _ _ => agree _ _ _ _

/-! ### Tokens -/

theorem Agree.pass {next otherNext : Unit → Rule α}
    (agree : pair.Agree (next ()) (otherNext ()) (place + 1) (other + 1) view) :
    pair.Agree (Rule.advance >>= next) (Rule.advance >>= otherNext) place other view :=
  fun _ _ => agree _ _

theorem Agree.test (test : Token → Bool) {next otherNext : Bool → Rule α}
    (same : test (tokenAt pair.tokens place).token = test (tokenAt pair.others other).token)
    (here : test (tokenAt pair.tokens place).token = true →
      pair.Agree (next true) (otherNext true) place other view)
    (away : test (tokenAt pair.tokens place).token = false →
      pair.Agree (next false) (otherNext false) place other view) :
    pair.Agree ((Rule.current >>= fun placed => pure (test placed.token)) >>= next)
      ((Rule.current >>= fun placed => pure (test placed.token)) >>= otherNext) place other
      view := by
  intro counts otherCounts
  change pair.Corresponds view (next (test (tokenAt pair.tokens place).token) _ _)
    (otherNext (test (tokenAt pair.others other).token) _ _)
  rw [← same]
  cases seen : test (tokenAt pair.tokens place).token with
  | true => exact here seen counts otherCounts
  | false => exact away seen counts otherCounts

section

variable (abreast : pair.Abreast place other)

include abreast

theorem Agree.advance {next otherNext : Unit → Rule α}
    (here : (tokenAt pair.tokens place).token = token) (unended : token ≠ .eof)
    (unbroken : token ≠ .newline) (agree : pair.Abreast (place + 1) (other + 1) →
      pair.Agree (next ()) (otherNext ()) (place + 1) (other + 1) view) :
    pair.Agree (advance >>= next) (advance >>= otherNext) place other view := by
  subst here
  exact fun _ _ => agree (pair.next abreast unended unbroken) _ _

theorem agree_advance (here : (tokenAt pair.tokens place).token = token) (unended : token ≠ .eof)
    (unbroken : token ≠ .newline) : pair.Agree advance advance place other fun _ => () := by
  subst here
  exact fun _ _ => .success rfl (pair.next abreast unended unbroken)

theorem Agree.atSymbol {symbol : Symbol} {next otherNext : Bool → Rule α}
    (here : (tokenAt pair.tokens place).token = .symbol symbol →
      pair.Agree (next true) (otherNext true) place other view)
    (away : pair.Agree (next false) (otherNext false) place other view) :
    pair.Agree (atSymbol symbol >>= next) (atSymbol symbol >>= otherNext) place other view :=
  Agree.test (·.isSymbol symbol) (blind abreast (·.isSymbol symbol) rfl)
    (fun seen => here (isSymbol_iff.mp seen)) fun _ => away

theorem Agree.atKeyword {word : Keyword} {next otherNext : Bool → Rule α}
    (here : (tokenAt pair.tokens place).token = .keyword word →
      pair.Agree (next true) (otherNext true) place other view)
    (away : pair.Agree (next false) (otherNext false) place other view) :
    pair.Agree (atKeyword word >>= next) (atKeyword word >>= otherNext) place other view :=
  Agree.test (·.isKeyword word) (blind abreast (·.isKeyword word) rfl)
    (fun seen => here (isKeyword_iff.mp seen)) fun _ => away

theorem Agree.ifSymbol {symbol : Symbol} {next otherNext : Unit → Rule α}
    {instead otherInstead : Rule α} (here : pair.Abreast (place + 1) (other + 1) →
      pair.Agree (next ()) (otherNext ()) (place + 1) (other + 1) view)
    (away : pair.Agree instead otherInstead place other view) :
    pair.Agree (Rule.atSymbol symbol >>= fun found =>
        if found then Rule.advance >>= next else instead)
      (Rule.atSymbol symbol >>= fun found =>
        if found then Rule.advance >>= otherNext else otherInstead) place other view :=
  Agree.atSymbol abreast
    (fun found => Agree.advance abreast found Token.noConfusion Token.noConfusion here) away

theorem Agree.ifKeyword {word : Keyword} {next otherNext : Unit → Rule α}
    {instead otherInstead : Rule α} (here : pair.Abreast (place + 1) (other + 1) →
      pair.Agree (next ()) (otherNext ()) (place + 1) (other + 1) view)
    (away : pair.Agree instead otherInstead place other view) :
    pair.Agree (Rule.atKeyword word >>= fun found =>
        if found then Rule.advance >>= next else instead)
      (Rule.atKeyword word >>= fun found =>
        if found then Rule.advance >>= otherNext else otherInstead) place other view :=
  Agree.atKeyword abreast
    (fun found => Agree.advance abreast found Token.noConfusion Token.noConfusion here) away

theorem agree_expectSymbol (symbol : Symbol) (expected : Expectation) :
    pair.Agree (expectSymbol symbol expected) (expectSymbol symbol expected) place other
      fun _ => () :=
  Agree.atSymbol abreast
    (fun here => agree_advance abreast here Token.noConfusion Token.noConfusion) agree_fail

theorem agree_expectKeyword (word : Keyword) :
    pair.Agree (expectKeyword word) (expectKeyword word) place other fun _ => () :=
  Agree.atKeyword abreast
    (fun here => agree_advance abreast here Token.noConfusion Token.noConfusion) agree_fail

theorem agree_expectName (expected : Expectation) :
    pair.Agree (expectName expected) (expectName expected) place other Prod.fst := by
  refine Agree.current abreast (fun _ _ _ _ => agree_fail) ?_
  intro token start stop otherStart otherStop here
  cases token with
  | identifier name =>
      exact Agree.advance abreast here Token.noConfusion Token.noConfusion
        fun onward => agree_pure onward rfl
  | _ => exact agree_fail

end

theorem Agree.opening {symbol : Symbol} (opens : symbol = .colon ∨ symbol = .leftCurly)
    {next otherNext : Bool → Rule α} (abreast : pair.Abreast place other)
    (block : ∀ {stop otherStop}, pair.Near (stop + 1) (otherStop + 1) →
      pair.Agree (next true) (otherNext true) stop otherStop view)
    (inline : pair.Abreast (place + 1) (other + 1) →
      pair.Agree (next false) (otherNext false) (place + 1) (other + 1) view) :
    pair.Agree (expectSymbol symbol expected >>= fun _ => isBlock >>= next)
      (expectSymbol symbol expected >>= fun _ => isBlock >>= otherNext) place other view := by
  have opened : ∀ rest : Rule α, (expectSymbol symbol expected >>= fun _ => rest) =
      Rule.atSymbol symbol >>= fun found => if found then Rule.advance >>= fun _ => rest
        else fail expected := by
    intro rest
    funext tokens reading
    change ((if (tokenAt tokens reading.cursor).token.isSymbol symbol = true then Rule.advance
        else fail expected) >>= fun _ => rest) tokens reading =
      (if (tokenAt tokens reading.cursor).token.isSymbol symbol = true then
        Rule.advance >>= fun _ => rest else fail expected) tokens reading
    split <;> rfl
  rw [opened, opened]
  refine Agree.atSymbol abreast (fun here => ?_) agree_fail
  rcases pair.body abreast here opens with broken | ⟨same, near⟩
  · exact fun _ _ => .broken broken
  · refine Agree.pass (Agree.test Token.isNewline (congrArg _ same) (fun line => ?_) fun _ => ?_)
    · exact block (near (isNewline_iff.mp line))
    · refine inline (pair.next abreast ?_ ?_)
      · rw [here]
        exact Token.noConfusion
      · rw [here]
        exact Token.noConfusion

/-! ### Parts -/

theorem Agree.register (agree : pair.Agree rule otherRule place other view) :
    pair.Agree (register rule) (register otherRule) place other view := by
  intro counts otherCounts
  have held := agree {} {}
  unfold Rule.register
  generalize rule pair.tokens _ = answer at held ⊢
  generalize otherRule pair.others _ = otherAnswer at held ⊢
  cases held with
  | success same abreast => exact .success same abreast
  | failure => exact .failure
  | crashed => exact .crashed
  | tooDeep => exact .tooDeep
  | otherTooDeep => exact .otherTooDeep
  | broken broken => exact .broken broken

/-- Which of two errors is reported may depend on the line ends that were passed. -/
theorem Agree.registerOr (expected : Expectation)
    (agree : pair.Agree rule otherRule place other view) :
    pair.Agree (registerOr expected rule) (registerOr expected otherRule) place other view := by
  intro counts otherCounts
  have held := agree.register counts otherCounts
  have failed : ∀ (tokens : Array Placed) (fault : SyntaxFault) (after : Reading),
      ∃ fault' after', (if after.counts.passed = 0 then fail expected tokens after
        else .ok (.failure fault, after)) = .ok ((.failure fault' : Reply α), after') := by
    intro tokens fault after
    by_cases unmoved : after.counts.passed = 0
    · rw [if_pos unmoved]
      exact ⟨_, _, rfl⟩
    · rw [if_neg unmoved]
      exact ⟨_, _, rfl⟩
  unfold Rule.registerOr
  generalize Rule.register rule pair.tokens _ = answer at held ⊢
  generalize Rule.register otherRule pair.others _ = otherAnswer at held ⊢
  cases held with
  | success same abreast => exact .success same abreast
  | @failure fault otherFault after otherAfter =>
      obtain ⟨_, _, first⟩ := failed pair.tokens fault after
      obtain ⟨_, _, second⟩ := failed pair.others otherFault otherAfter
      dsimp only
      rw [first, second]
      exact .failure
  | crashed => exact .crashed
  | tooDeep => exact .tooDeep
  | otherTooDeep => exact .otherTooDeep
  | broken broken => exact .broken broken

/-- What was tried in vain in both versions is given back in both, if the books balance. -/
theorem Agree.attempt {shallow otherShallow : Prop} {post otherPost : α → Nat → Prop}
    (agree : pair.Agree rule otherRule place other view) (abreast : pair.Abreast place other)
    (balanced : Balanced pair.tokens pair.last shallow rule place post)
    (otherBalanced : Balanced pair.others pair.otherLast otherShallow otherRule other otherPost) :
    pair.Agree (attempt rule) (attempt otherRule) place other (Option.map view) := by
  intro counts otherCounts
  have held := agree {} {}
  have moved := balanced {}
  have otherMoved := otherBalanced {}
  unfold Rule.attempt
  generalize rule pair.tokens _ = answer at held moved ⊢
  generalize otherRule pair.others _ = otherAnswer at held otherMoved ⊢
  cases held with
  | success same abreast => exact .success (congrArg some same) abreast
  | @failure _ _ after otherAfter =>
      have counted := moved.counted
      have otherCounted := otherMoved.counted
      dsimp only at counted otherCounted
      refine .success rfl ?_
      change pair.Abreast (after.cursor - after.counts.passed)
        (otherAfter.cursor - otherAfter.counts.passed)
      rw [show _ - _ = place by omega, show _ - _ = other by omega]
      exact abreast
  | crashed => exact .crashed
  | tooDeep => exact .tooDeep
  | otherTooDeep => exact .otherTooDeep
  | broken broken => exact .broken broken

/-! ### Repetition -/

theorem agree_collect {step otherStep : Rule (Option α)}
    (each : ∀ place other, pair.Abreast place other →
      pair.Agree step otherStep place other (Option.map view)) :
    ∀ (fuel otherFuel : Nat) (collected otherCollected : List α) (place other : Nat),
      collected.map view = otherCollected.map view → pair.Abreast place other →
      pair.Agree (collect step fuel collected) (collect otherStep otherFuel otherCollected) place
        other (List.map view) := by
  intro fuel
  induction fuel with
  | zero => exact fun _ _ _ _ _ _ _ _ _ => .tooDeep
  | succ fuel ih =>
      intro otherFuel collected otherCollected place other same abreast
      cases otherFuel with
      | zero => exact fun _ _ => .otherTooDeep
      | succ otherFuel =>
          unfold collect
          refine (each place other abreast).bind ?_
          intro result otherResult stop otherStop alike onward
          cases result with
          | none =>
              cases otherResult with
              | none =>
                  refine agree_pure onward ?_
                  rw [List.map_reverse, List.map_reverse, same]
              | some otherResult => cases alike
          | some result =>
              cases otherResult with
              | none => cases alike
              | some otherResult =>
                  refine ih otherFuel _ _ stop otherStop ?_ onward
                  rw [List.map_cons, List.map_cons, same, Option.some.inj alike]

theorem agree_many {step otherStep : Rule (Option α)} (abreast : pair.Abreast place other)
    (each : ∀ place other, pair.Abreast place other →
      pair.Agree step otherStep place other (Option.map view)) :
    pair.Agree (many step) (many otherStep) place other (List.map view) :=
  Agree.remaining fun fuel otherFuel =>
    agree_collect each fuel otherFuel [] [] place other rfl abreast

theorem agree_afterCommas (abreast : pair.Abreast place other)
    (each : ∀ place other, pair.Abreast place other →
      pair.Agree rule otherRule place other view) :
    pair.Agree (afterCommas rule) (afterCommas otherRule) place other (List.map view) := by
  refine agree_many abreast ?_
  intro place other abreast
  refine Agree.ifSymbol abreast (fun onward => ?_) (agree_pure abreast rfl)
  refine (each _ _ onward).bind ?_
  intro result otherResult stop otherStop same reached
  exact agree_pure reached (congrArg some same)

end Versions

end Grammar

/-! ### Runs of line ends -/

namespace Token

/-- One line end in the place of every run of them. -/
def collapse : List Token → List Token
  | [] => []
  | token :: rest =>
      if token.isNewline && rest.head?.any isNewline then collapse rest else token :: collapse rest

theorem collapse_cons (other : token ≠ .newline) (rest : List Token) :
    collapse (token :: rest) = token :: collapse rest := by
  have notLine : token.isNewline = false := by
    rw [← Bool.not_eq_true, isNewline_iff]
    exact other
  rw [collapse, notLine, Bool.false_and, if_neg Bool.false_ne_true]

theorem collapse_lines {rest : List Token} (final : Begins (· ≠ .newline) rest) (count : Nat) :
    collapse (List.replicate (count + 1) .newline ++ rest) = .newline :: collapse rest := by
  induction count with
  | zero =>
      obtain ⟨token, more, rfl, other⟩ := final.exists_eq_cons
      have notLine : ¬(newline.isNewline && (token :: more).head?.any isNewline) = true := by
        simpa [isNewline_iff] using other
      rw [List.replicate_one, List.singleton_append, collapse, if_neg notLine]
  | succ count ih =>
      rw [List.replicate_succ, List.cons_append, collapse, if_pos, ih]
      rfl

theorem collapse_ne_line {rest : List Token} (final : Begins (· ≠ .newline) rest)
    (more : List Token) : collapse rest ≠ .newline :: more := by
  obtain ⟨token, behind, rfl, other⟩ := final.exists_eq_cons
  rw [collapse_cons other]
  exact fun same => other (List.head_eq_of_cons_eq same)

theorem exists_run (words : List Token) :
    ∃ count rest, words = List.replicate count .newline ++ rest ∧
      (rest ≠ [] → Begins (· ≠ .newline) rest) := by
  induction words with
  | nil => exact ⟨0, [], rfl, fun some => absurd rfl some⟩
  | cons token words ih =>
      by_cases line : token = .newline
      · subst line
        obtain ⟨count, rest, rfl, final⟩ := ih
        exact ⟨count + 1, rest, rfl, final⟩
      · exact ⟨0, token :: words, rfl, fun _ => line⟩

theorem exists_lines {words : List Token} (ended : .eof ∈ words) :
    ∃ count rest, words = List.replicate count .newline ++ rest ∧ Begins (· ≠ .newline) rest := by
  obtain ⟨count, rest, rfl, begins⟩ := exists_run words
  refine ⟨count, rest, rfl, begins fun nothing => ?_⟩
  rw [nothing, List.append_nil] at ended
  cases List.eq_of_mem_replicate ended

theorem head?_collapse (words : List Token) : (collapse words).head? = words.head? := by
  induction words with
  | nil => rfl
  | cons token rest ih =>
      by_cases repeated : (token.isNewline && rest.head?.any isNewline) = true
      · rw [collapse, if_pos repeated, ih]
        obtain ⟨line, again⟩ := Bool.and_eq_true_iff.mp repeated
        cases rest with
        | nil => cases again
        | cons next more =>
            rw [List.head?_cons, List.head?_cons, isNewline_iff.mp line]
            exact congrArg some (isNewline_iff.mp again)
      · rw [collapse, if_neg repeated]
        rfl

theorem collapse_collapse (words : List Token) : collapse (collapse words) = collapse words := by
  induction words with
  | nil => rfl
  | cons token rest ih =>
      by_cases repeated : (token.isNewline && rest.head?.any isNewline) = true
      · rw [collapse, if_pos repeated, ih]
      · have still := repeated
        rw [← head?_collapse] at still
        rw [collapse, if_neg repeated, collapse, if_neg still, ih]

theorem mem_of_mem_collapse {words : List Token} (found : token ∈ collapse words) :
    token ∈ words := by
  induction words with
  | nil => exact found
  | cons first rest ih =>
      rw [collapse] at found
      split at found
      · exact List.mem_cons_of_mem _ (ih found)
      · rcases List.mem_cons.mp found with rfl | behind
        · exact List.mem_cons_self
        · exact List.mem_cons_of_mem _ (ih behind)

theorem collapse_append_eof (words : List Token) :
    collapse (words ++ [.eof]) = collapse words ++ [.eof] := by
  induction words with
  | nil => rfl
  | cons token rest ih =>
      have same : (rest ++ [eof]).head?.any isNewline = rest.head?.any isNewline := by
        cases rest <;> rfl
      rw [List.cons_append, collapse, collapse, same, ih]
      split
      · rfl
      · rfl

theorem dropWhile_collapse {rest : List Token} (final : Begins (· ≠ .newline) rest) (count : Nat) :
    (collapse (List.replicate count .newline ++ rest)).dropWhile isNewline = collapse rest := by
  have stays : (collapse rest).dropWhile isNewline = collapse rest := by
    obtain ⟨token, more, rfl, other⟩ := final.exists_eq_cons
    rw [collapse_cons other, List.dropWhile_cons_of_neg]
    rwa [isNewline_iff]
  cases count with
  | zero => exact stays
  | succ count =>
      rw [collapse_lines final, List.dropWhile_cons_of_pos rfl]
      exact stays

end Token

namespace Grammar

open Token

theorem eof_mem_ahead {tokens : Array Placed} {last place : Nat} (ends : EndsAt tokens last)
    (within : place ≤ last) : .eof ∈ ahead tokens place := by
  have inside := ends.inside
  have mark := ends.mark
  rw [tokenAt_of_lt tokens inside] at mark
  rw [ahead, List.mem_drop_iff_getElem]
  refine ⟨last - place, ?_, ?_⟩
  · rw [List.length_map, Array.length_toList]
    omega
  · simp only [Nat.add_sub_cancel' within, List.getElem_map, Array.getElem_toList]
    exact mark

namespace Rows

variable {pair : Rows} {place other : Nat}

/-- The same tokens lie ahead in both rows, but for the lengths of their runs of line ends. -/
structure Abreast (pair : Rows) (place other : Nat) : Prop where
  within : place ≤ pair.last
  otherWithin : other ≤ pair.otherLast
  alike : collapse (ahead pair.tokens place) = collapse (ahead pair.others other)

/-- The same tokens lie ahead in both rows once line ends are passed. -/
structure Near (pair : Rows) (place other : Nat) : Prop where
  within : place ≤ pair.last
  otherWithin : other ≤ pair.otherLast
  alike : (collapse (ahead pair.tokens place)).dropWhile isNewline =
    (collapse (ahead pair.others other)).dropWhile isNewline

section

variable (abreast : pair.Abreast place other)

include abreast

theorem Abreast.near : pair.Near place other where
  within := abreast.within
  otherWithin := abreast.otherWithin
  alike := congrArg (List.dropWhile isNewline) abreast.alike

theorem Abreast.exists_token :
    ∃ token rest otherRest, ahead pair.tokens place = token :: rest ∧
      ahead pair.others other = token :: otherRest := by
  have ended := eof_mem_ahead pair.ends abreast.within
  have otherEnded := eof_mem_ahead pair.otherEnds abreast.otherWithin
  have heads := congrArg List.head? abreast.alike
  rw [head?_collapse, head?_collapse] at heads
  cases here : ahead pair.tokens place with
  | nil =>
      rw [here] at ended
      cases ended
  | cons token rest =>
      cases there : ahead pair.others other with
      | nil =>
          rw [there] at otherEnded
          cases otherEnded
      | cons otherToken otherRest =>
          rw [here, there] at heads
          cases heads
          exact ⟨token, rest, otherRest, rfl, rfl⟩

theorem Abreast.same_token :
    (tokenAt pair.tokens place).token = (tokenAt pair.others other).token := by
  obtain ⟨token, rest, otherRest, here, there⟩ := abreast.exists_token
  rw [tokenAt_of_ahead here, tokenAt_of_ahead there]

theorem Abreast.next (unended : (tokenAt pair.tokens place).token ≠ .eof)
    (unbroken : (tokenAt pair.tokens place).token ≠ .newline) :
    pair.Abreast (place + 1) (other + 1) where
  within := pair.ends.lt_of_ne abreast.within unended
  otherWithin := by
    rw [abreast.same_token] at unended
    exact pair.otherEnds.lt_of_ne abreast.otherWithin unended
  alike := by
    obtain ⟨token, rest, otherRest, here, there⟩ := abreast.exists_token
    rw [tokenAt_of_ahead here] at unbroken
    have alike := abreast.alike
    rw [here, there, collapse_cons unbroken, collapse_cons unbroken] at alike
    rw [ahead_succ here, ahead_succ there]
    exact List.tail_eq_of_cons_eq alike

theorem Abreast.nextLine (line : (tokenAt pair.tokens place).token = .newline) :
    pair.Near (place + 1) (other + 1) := by
  obtain ⟨token, rest, otherRest, here, there⟩ := abreast.exists_token
  rw [tokenAt_of_ahead here] at line
  subst line
  have within : place + 1 ≤ pair.last := by
    refine pair.ends.lt_of_ne abreast.within ?_
    rw [tokenAt_of_ahead here]
    exact Token.noConfusion
  have otherWithin : other + 1 ≤ pair.otherLast := by
    refine pair.otherEnds.lt_of_ne abreast.otherWithin ?_
    rw [tokenAt_of_ahead there]
    exact Token.noConfusion
  refine ⟨within, otherWithin, ?_⟩
  have ended := eof_mem_ahead pair.ends within
  have otherEnded := eof_mem_ahead pair.otherEnds otherWithin
  have alike := abreast.near.alike
  rw [here, there] at alike
  rw [ahead_succ here] at ended ⊢
  rw [ahead_succ there] at otherEnded ⊢
  obtain ⟨count, behind, rfl, final⟩ := exists_lines ended
  obtain ⟨otherCount, otherBehind, rfl, otherFinal⟩ := exists_lines otherEnded
  rw [dropWhile_collapse final, dropWhile_collapse otherFinal]
  rw [← List.cons_append, ← List.replicate_succ, dropWhile_collapse final, ← List.cons_append,
    ← List.replicate_succ, dropWhile_collapse otherFinal] at alike
  exact alike

end

/-- Rows that differ in the lengths of their runs of line ends only. -/
def lines (pair : Rows) : Versions where
  toRows := pair
  Abreast := pair.Abreast
  Near := pair.Near
  Broken := False
  within := Abreast.within
  otherWithin := Abreast.otherWithin
  same abreast := .inl abreast.same_token
  next := Abreast.next
  body abreast here _ := by
    have onward := abreast.next (by rw [here]; exact Token.noConfusion)
      (by rw [here]; exact Token.noConfusion)
    exact .inr ⟨onward.same_token, onward.nextLine⟩

/-- Passing line ends brings both rows abreast, in front of something else. -/
theorem ends_skipNewlines {tokens : Array Placed} {last : Nat} (ends : EndsAt tokens last)
    (within : place ≤ last) (counts : Counts) :
    ∃ passed rest after, skipNewlines tokens { cursor := place, counts } =
        .ok (.success passed, after) ∧
      ahead tokens place = List.replicate passed .newline ++ rest ∧
      ahead tokens after.cursor = rest ∧ after.cursor ≤ last ∧ Begins (· ≠ .newline) rest := by
  obtain ⟨count, rest, lines, final⟩ := exists_lines (eof_mem_ahead ends within)
  obtain ⟨passed, after, ended, left, rfl⟩ :=
    reads_skipNewlines count final tokens place counts lines
  have keeps : Keeps tokens last False skipNewlines place _ := keeps_skipNewlines ends within
  obtain ⟨_, inside, _⟩ := keeps.balanced.reached ended
  exact ⟨passed, rest, after, ended, lines, left, inside, final⟩

theorem Near.agree_skipNewlines (near : pair.Near place other) :
    pair.lines.Agree skipNewlines skipNewlines place other fun _ => () := by
  intro counts otherCounts
  obtain ⟨_, rest, after, ended, lines, left, within, final⟩ :=
    ends_skipNewlines pair.ends near.within counts
  obtain ⟨_, otherRest, otherAfter, otherEnded, otherLines, otherLeft, otherWithin, otherFinal⟩ :=
    ends_skipNewlines pair.otherEnds near.otherWithin otherCounts
  have alike := near.alike
  rw [lines, otherLines, dropWhile_collapse final, dropWhile_collapse otherFinal] at alike
  change pair.lines.Corresponds _ (skipNewlines pair.tokens _) (skipNewlines pair.others _)
  rw [ended, otherEnded]
  refine .success rfl (⟨within, otherWithin, ?_⟩ : pair.Abreast _ _)
  rw [left, otherLeft, alike]

theorem Abreast.agree_skipNewlines (abreast : pair.Abreast place other) :
    pair.lines.Agree skipNewlines skipNewlines place other (decide <| · = 0) := by
  intro counts otherCounts
  obtain ⟨passed, rest, after, ended, lines, left, within, final⟩ :=
    ends_skipNewlines pair.ends abreast.within counts
  obtain ⟨otherPassed, otherRest, otherAfter, otherEnded, otherLines, otherLeft, otherWithin,
    otherFinal⟩ := ends_skipNewlines pair.otherEnds abreast.otherWithin otherCounts
  have reached : pair.lines.Corresponds _ (skipNewlines pair.tokens _)
    (skipNewlines pair.others _) := abreast.near.agree_skipNewlines counts otherCounts
  change pair.lines.Corresponds _ (skipNewlines pair.tokens _) (skipNewlines pair.others _)
  rw [ended, otherEnded] at reached ⊢
  cases reached with
  | success _ reached =>
      refine .success ?_ reached
      have alike := abreast.alike
      rw [lines, otherLines] at alike
      cases passed with
      | zero =>
          cases otherPassed with
          | zero => rfl
          | succ otherPassed =>
              rw [collapse_lines otherFinal] at alike
              exact absurd alike (collapse_ne_line final _)
      | succ passed =>
          cases otherPassed with
          | zero =>
              rw [collapse_lines final] at alike
              exact absurd alike.symm (collapse_ne_line otherFinal _)
          | succ otherPassed => simp
  | broken broken => exact broken.elim

end Rows

end Grammar

end Lingo
