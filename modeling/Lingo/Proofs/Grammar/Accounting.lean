/-
The books of the grammar rules.

Every rule, from every index, ends as many tokens ahead as its attempt has counted, and
not behind the end mark.  So an attempt that is given up returns to where it began, and a
script that is read to its end has counted all tokens before the end mark.
-/

import Lingo.Proofs.Grammar.Expression

namespace Lingo.Grammar

open Rule

/-- The rules of the grammar, by what they yield. -/
inductive IsRule : {α : Type} → (Level → Rule α) → Prop where
  | statements : IsRule statements
  | statement : IsRule statement
  | expr : IsRule expr
  | comparison : IsRule comparison
  | sum : IsRule sum
  | product : IsRule product
  | factor : IsRule factor
  | power : IsRule power
  | call : IsRule call
  | atom : IsRule atom
  | listLiteral : IsRule listLiteral
  | dictLiteral : IsRule dictLiteral
  | branch : IsRule branch
  | cases (spelling : String) : IsRule fun level => cases level spelling
  | furtherCases : IsRule fun level => Grammar.cases level Keyword.elifWord.spelling
  | otherwise : IsRule otherwise
  | moreCases : IsRule moreCases
  | forLoop : IsRule forLoop
  | whileLoop : IsRule whileLoop
  | functionDefinition : IsRule functionDefinition

variable {tokens : Array Placed} {last start : Nat}

/-- The books of every rule of every level balance from every index up to the end mark. -/
theorem IsRule.keeps {α : Type} {rule : Level → Rule α} (known : IsRule rule)
    (ends : EndsAt tokens last) (depth : Nat) (within : start ≤ last) :
    Balanced tokens last (depth + start < tokens.size) (rule (Level.of depth)) start
      fun _ _ => True := by
  have below := below_of ends depth start
  have behind : Level.Below tokens last (depth + start < tokens.size) (start + 1)
      (Level.of depth) := below.later (Nat.le_succ start)
  have plain : ∀ {post : α → Nat → Prop},
      Keeps tokens last (depth + start < tokens.size) (rule (Level.of depth)) start post →
      Balanced tokens last (depth + start < tokens.size) (rule (Level.of depth)) start
        fun _ _ => True := by
    intro post keeps
    exact keeps.balanced.mono (fun _ _ _ _ _ => trivial) id
  cases known with
  | statements => exact plain (keeps_statements ends behind within)
  | statement => exact plain (keeps_statement ends behind within)
  | expr => exact plain (keeps_expr ends behind within)
  | comparison => exact plain (keeps_comparison ends behind within)
  | sum => exact plain (keeps_sum ends behind within)
  | product => exact plain (keeps_product ends behind within)
  | factor => exact plain (keeps_factor ends behind within)
  | power => exact plain (keeps_power ends behind within)
  | call => exact plain (keeps_call ends behind within)
  | atom => exact plain (keeps_atom ends behind within)
  | listLiteral => exact plain (keeps_listLiteral ends behind within)
  | dictLiteral => exact plain (keeps_dictLiteral ends behind within)
  | branch => exact plain (keeps_branch ends behind within)
  | cases spelling => exact plain (keeps_cases ends behind within spelling)
  | furtherCases => exact plain (keeps_cases ends behind within _)
  | otherwise => exact plain (keeps_otherwise ends behind within)
  | moreCases => exact plain (keeps_moreCases ends below within)
  | forLoop => exact plain (keeps_forLoop ends behind within)
  | whileLoop => exact plain (keeps_whileLoop ends behind within)
  | functionDefinition => exact plain (keeps_functionDefinition ends behind within)

theorem current_eq_getElem? {tokens : List Placed} {reading : Reading}
    (inside : reading.cursor < tokens.length) :
    ∃ placed, tokens[reading.cursor]? = some placed ∧
      current tokens.toArray reading = .ok (.success placed, reading) := by
  refine ⟨tokens[reading.cursor], List.getElem?_eq_getElem inside, ?_⟩
  have found := tokenAt_of_lt tokens.toArray (by simpa using inside)
  simp only [current, found, List.getElem_toArray]

/-- An earlier error stays in the record if tokens have been passed. -/
theorem ofReply_registerOr {α : Type} {part : Rule α} {tokens : Array Placed}
    {reading after : Reading} {fault : SyntaxFault}
    (failed : register part tokens reading = .ok (.failure fault, after)) (expected : Expectation) :
    let token := tokenAt tokens after.cursor
    ∃ reply, registerOr expected part tokens reading = .ok (reply, after) ∧
      Attempt.ofReply after reply = (Attempt.ofReply after (.failure fault : Reply α)).fail
        { expected, start := token.start, stop := token.stop } := by
  unfold registerOr
  rw [failed]
  by_cases unmoved : after.counts.passed = 0
  · simp only [if_pos unmoved]
    refine ⟨_, rfl, (if_pos (.inr unmoved)).symm⟩
  · simp only [if_neg unmoved]
    refine ⟨_, rfl, (if_neg fun either => ?_).symm⟩
    exact either.elim Bool.noConfusion unmoved

/-- Let the end mark stand at the end of the tokens and nowhere else.  Wherever a rule begins
and however it ends, the cursor has moved by what the attempt counted, stands at the end mark
at most, and the current token is the one at the cursor.  Whoever takes over its record counts the
same, and whoever tries it counts nothing if it failed, and goes back to where it began.  An attempt
of a rule that was given up leaves the cursor where it began.  With levels enough for the tokens
that are left, a rule does end, but for the loop that has no meaning.  A script that was read has
counted all tokens before the end mark. -/
theorem cursor_eq_start_add_passed (tokens : List Placed) (words : List Token)
    (written : tokens.map Placed.token = words ++ [.eof]) (once : .eof ∉ words) :
    (∀ {α : Type} (rule : Level → Rule α), IsRule rule → ∀ depth start, start < tokens.length →
      (∀ reply after,
        rule (Level.of depth) tokens.toArray { cursor := start, counts := {} } =
          .ok (reply, after) →
        after.cursor = start + after.counts.passed ∧ start ≤ after.cursor ∧
          after.cursor ≤ words.length ∧
          (∃ placed, tokens[after.cursor]? = some placed ∧
            current tokens.toArray after = .ok (.success placed, after)) ∧
          let record := Attempt.ofReply after reply
          record.counts = after.counts ∧ ∀ own : Attempt SyntaxFault α,
            start + (own.register record).counts.passed = own.counts.passed + after.cursor ∧
            let tried := (own.tryRegister record).counts
            (record.error = none → start + tried.passed = own.counts.passed + after.cursor) ∧
            (record.error ≠ none →
              tried.passed = own.counts.passed ∧ after.cursor - tried.returned = start)) ∧
      (∀ counts after,
        attempt (rule (Level.of depth)) tokens.toArray { cursor := start, counts } =
          .ok (.success none, after) →
        after.cursor = start ∧ after.counts.passed = counts.passed) ∧
      (tokens.length ≤ depth + start → ∀ cause,
        rule (Level.of depth) tokens.toArray { cursor := start, counts := {} } = .error cause →
        cause = .inlineForEach)) ∧
    (∀ tree after, run script tokens = .ok (.success tree, after) →
      after.counts.passed = words.length ∧ after.cursor = words.length) := by
  have ends := endsAt_of_map written once
  have length : tokens.length = words.length + 1 := by
    have counted := congrArg List.length written
    simpa using counted
  refine ⟨?_, ?_⟩
  · intro α rule known depth start inside
    have keeps := known.keeps ends depth (by omega : start ≤ words.length)
    refine ⟨?_, ?_, ?_⟩
    · intro reply after ended
      have held := keeps {}
      rw [ended] at held
      have moved : Moves words.length { cursor := start, counts := {} } after := by
        cases reply with
        | success result => exact held.1
        | failure fault => exact held
      have counted := moved.counted
      have forward := moved.forward
      have within := moved.within
      simp only at counted forward
      refine ⟨by omega, forward, within, current_eq_getElem? (by omega), ?_⟩
      have taken (own : Attempt SyntaxFault α) : start + (own.counts.passed + after.counts.passed) =
          own.counts.passed + after.cursor := by omega
      have back : after.cursor - after.counts.passed = start := by omega
      cases reply with
      | success result =>
          exact ⟨rfl, fun own => ⟨taken own, fun _ => taken own, fun failed => absurd rfl failed⟩⟩
      | failure fault =>
          exact ⟨rfl, fun own => ⟨taken own, fun none => absurd none (Option.some_ne_none fault),
            fun _ => ⟨rfl, back⟩⟩⟩
    · intro counts after ended
      have held := keeps.attempt (by omega : start ≤ words.length) counts
      rw [ended] at held
      obtain ⟨moved, returned⟩ := held
      have counted := moved.counted
      simp only at counted returned
      exact ⟨returned, by omega⟩
    · intro enough cause crashed
      have held := keeps {}
      rw [crashed] at held
      rcases held with loop | shallow
      · exact loop
      · simp only [List.size_toArray] at shallow
        omega
  · intro tree after ended
    have held := keeps_script ends (tokens.length + 1) {}
    rw [show script (Level.of (tokens.length + 1)) tokens.toArray { cursor := 0, counts := {} } =
      .ok (.success tree, after) from ended] at held
    obtain ⟨moved, reached, _⟩ := held
    have counted := moved.counted
    simp only at counted
    exact ⟨by omega, reached⟩

/-- A sum without its second operand is given up behind two tokens, and the attempt is back at
the first one. -/
theorem attempt_unfinished_sum_returns :
    ∃ after, attempt (expr (Level.of 4)) (unplaced [.int 1, .symbol .plus, .eof]).toArray
        { cursor := 0, counts := {} } = .ok (.success none, after) ∧
      after.cursor = 0 ∧ after.counts.passed = 0 := by
  have held := cursor_eq_start_add_passed (unplaced [.int 1, .symbol .plus, .eof])
    [.int 1, .symbol .plus] rfl (by simp)
  have returned := (held.1 expr .expr 4 0 (by decide)).2.1
  exact ⟨_, rfl, returned {} _ rfl⟩

end Lingo.Grammar
