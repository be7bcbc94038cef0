/-
Where a branch ends.

A body on lines of its own is closed by a word if it is what holds otherwise.  The body of the last
case takes the closing word if it stands behind it, and does without if it does not: a branch that
is left open at the end of a text is read like one that is closed.
-/

import Lingo.Proofs.Grammar.Expression
import Lingo.Proofs.Grammar.Printing

namespace Lingo.Grammar

open Rule

/-- The words of a branch of one case, without a word behind the statements. -/
def openWords (condition : Bare) (statements : List Bare) : List Token :=
  .keyword .ifWord :: (condition.enclosed condition.words ++ .symbol .colon :: .newline ::
    Tree.blockWords (.list () statements))

variable {condition : Bare} {statements : List Bare} {rest : List Token}

theorem parses_openWords
    (formed : Tree.FormedCases [(condition, .list () statements, true)]) :
    Parses branch (openWords condition statements ++ .eof :: rest) (.eof :: rest) fun result =>
      result.bare = .branch () [(condition, .list () statements, true)] none := by
  obtain ⟨⟨expression, condition_⟩, ⟨some, lines⟩, _⟩ := formed
  have test := condition_.written.operand expression
  have ends : Begins (fun token => token.ends = true) (.eof :: rest) := rfl
  have body : Parses Grammar.statements (Tree.blockWords (.list () statements) ++ .eof :: rest)
      (.eof :: rest) fun result => result.bare = .list () statements := by
    obtain ⟨first, others, rfl⟩ := List.exists_cons_of_ne_nil some
    have parses := parses_statements lines.written (fun _ => rfl) ends reads_nextStatement_eof
    rwa [← Tree.linePieces, Tree.linePieces_snd] at parses
  intro depth fits
  have spelt : openWords condition statements ++ .eof :: rest = .keyword .ifWord ::
      (condition.enclosed condition.words ++ .symbol .colon :: .newline ::
        (Tree.blockWords (.list () statements) ++ .eof :: rest)) := by
    simp [openWords]
  rw [spelt] at fits ⊢
  have shorter : (Tree.blockWords (.list () statements) ++ .eof :: rest).length < depth := by
    simp only [List.length_cons, List.length_append] at fits ⊢
    omega
  have colon : Begins (fun token => token.pull = 0) (.symbol .colon :: .newline ::
      (Tree.blockWords (.list () statements) ++ .eof :: rest)) := rfl
  suffices chain : Reads (cases (Level.of depth) Keyword.ifWord.spelling) _ (.eof :: rest)
      (ReadsCases [⟨([], condition), true, ([], .list () statements)⟩] none) by
    apply chain.register.bind
    intro found known
    apply reads_pure
    rw [Tree.bare, known.1, known.2]
    rfl
  unfold cases
  apply Reads.current
  intro placed here
  rw [here]
  apply Reads.advance
  apply (test.reads_expr colon fits).register.bind
  intro found sameTest
  apply (reads_expectSymbol .colon _).bind
  intro _ _
  apply reads_isBlock
  apply Reads.advance
  apply (body.down Level.statements (fun _ => rfl) shorter).register.bind
  intro script sameBody
  apply Reads.notAtKeyword (by simp [Begins])
  have nothing : Reads (moreCases (Level.of depth)) (.eof :: rest) (.eof :: rest)
      (ReadsCases [] none) := by
    have fewer : (Token.eof :: rest).length < depth :=
      Nat.lt_of_le_of_lt (List.sublist_append_right _ _).length_le shorter
    have noBody : ∀ part ∈ (none : Option (Bool × List Token × Bare)),
        BodyOf part.1 part.2.1 part.2.2 := fun _ found => by cases found
    exact reads_moreCases noBody ends (fun some => absurd rfl some) fewer
  apply nothing.register.bind
  intro chain none
  apply reads_pure
  exact ⟨by rw [Tree.bareCases, sameTest, sameBody, none.1]; rfl, none.2⟩

theorem run_script_openWords {tokens : List Placed}
    (formed : Tree.FormedCases [(condition, .list () statements, true)])
    (written : tokens.map Placed.token = openWords condition statements ++ [.eof]) :
    ∃ tree after, run script tokens = .ok (.success tree, after) ∧
      tree.bare = .list () [.branch () [(condition, .list () statements, true)] none] := by
  have spells : Spells (· = .eof) 0 (openWords condition statements)
      (.branch () [(condition, .list () statements, true)] none) := by
    refine Tree.spells_construct rfl fun rest begins => ?_
    obtain ⟨_, rest, rfl, rfl⟩ := begins.exists_eq_cons
    exact parses_openWords formed
  have line : ∀ line ∈ [(openWords condition statements,
      Tree.branch () [(condition, .list () statements, true)] none)],
      States (· = .eof) line.1 line.2 :=
    List.forall_mem_singleton.mpr (spells.states fun _ mark => mark ▸ rfl)
  have oneLine : separated .newline [openWords condition statements] = _ := List.append_nil _
  rw [← oneLine] at written
  exact run_script_of_good_states written line (fun more => absurd rfl more) rfl

/-- Let the end mark stand at the end of the tokens and nowhere else, and let a branch be read from
any index, with a last body on lines of its own.  It ends with the closing word or, if that body
belongs to a case, in front of a token that neither closes it nor goes on with the chain.  The
latter is no error: a script that is a branch of one case is read without the closing word. -/
theorem block_end_of_branch (tokens : List Placed) (words : List Token)
    (written : tokens.map Placed.token = words ++ [.eof]) (once : .eof ∉ words) :
    (∀ depth start counts tree after, start < tokens.length →
      branch (Level.of depth) tokens.toArray { cursor := start, counts } =
        .ok (.success tree, after) →
      ∃ place chain, tree = .branch place chain.1 chain.2 ∧ ∀ body,
        lastBody chain = some (body, true) →
          BlockEnd tokens.toArray start chain body after.cursor) ∧
    ∀ condition statements, Tree.FormedCases [(condition, .list () statements, true)] →
      words = openWords condition statements →
      ∃ tree after, run script tokens = .ok (.success tree, after) ∧
        tree.bare = .list () [.branch () [(condition, .list () statements, true)] none] := by
  refine ⟨?_, ?_⟩
  · intro depth start counts tree after inside read
    have length : tokens.length = words.length + 1 := by
      simpa using congrArg List.length written
    have ends := endsAt_of_map written once
    have keeps := keeps_cases ends ((below_of ends depth start).later (Nat.le_succ start))
      (by omega) Keyword.ifWord.spelling
    obtain ⟨chain, middle, begun, rest⟩ := of_bind_success read
    cases rest
    exact ⟨branchSpan chain, chain, rfl, (keeps.register.balanced.reached begun).2.2.2.1⟩
  · rintro condition statements formed rfl
    exact run_script_openWords formed written

theorem formed_number :
    Tree.FormedCases [(.number () (.int 1), .list () [.number () (.int 2)], true)] := by
  have digit : ∀ value < 10, (Literal.int value).token.Writable := fun _ small =>
    Nat.lt_of_lt_of_le small (Nat.le_self_pow (by decide) 10)
  simp [Tree.Formed, Tree.FormedBlock, Tree.FormedLines, Tree.FormedCases, Tree.isCommand, digit]

theorem block_end_of_number :
    (∃ tree after place chain body, branch (Level.of 6) (unplaced [.keyword .ifWord, .int 1,
        .symbol .colon, .newline, .int 2, .eof]).toArray { cursor := 0, counts := {} } =
          .ok (.success tree, after) ∧
      tree = .branch place chain.1 chain.2 ∧ lastBody chain = some (body, true) ∧
      BlockEnd (unplaced [.keyword .ifWord, .int 1, .symbol .colon, .newline, .int 2,
        .eof]).toArray 0 chain body after.cursor) ∧
    ∃ tree after, run script (unplaced [.keyword .ifWord, .int 1, .symbol .colon, .newline, .int 2,
      .eof]) = .ok (.success tree, after) ∧ tree.bare = .list ()
        [.branch () [(.number () (.int 1), .list () [.number () (.int 2)], true)] none] := by
  have ended := block_end_of_branch (unplaced [.keyword .ifWord, .int 1, .symbol .colon, .newline,
    .int 2, .eof]) [.keyword .ifWord, .int 1, .symbol .colon, .newline, .int 2] rfl (by simp)
  refine ⟨?_, ended.2 _ _ formed_number rfl⟩
  have row : Rule.ahead (unplaced [.keyword .ifWord, .int 1, .symbol .colon, .newline, .int 2,
    .eof]).toArray 0 = openWords (.number () (.int 1)) [.number () (.int 2)] ++ [.eof] := rfl
  obtain ⟨tree, after, read, _, same⟩ := parses_openWords formed_number 6
    (by exact Nat.le_refl 6) _ 0 {} row
  obtain ⟨place, chain, rfl, ends⟩ := ended.1 6 0 {} tree after (by decide) read
  have last : ∃ body, lastBody chain = some (body, true) := by
    clear ends read row ended
    obtain ⟨cases, other⟩ := chain
    rcases other with _ | other <;>
      rcases cases with _ | ⟨⟨condition, body, block⟩, _ | ⟨next, more⟩⟩ <;>
      simp_all [Tree.bare, Tree.bareCases, Tree.bareOtherwise, lastBody]
  obtain ⟨body, last⟩ := last
  exact ⟨_, after, place, chain, body, read, rfl, last, ends body last⟩

/-- No word closes the branch, and the script is read nevertheless. -/
theorem script_without_end :
    .keyword .endWord ∉ [Token.keyword .ifWord, .int 1, .symbol .colon, .newline, .int 2, .eof] ∧
    ∃ tree after, run script (unplaced [.keyword .ifWord, .int 1, .symbol .colon, .newline, .int 2,
      .eof]) = .ok (.success tree, after) := by
  obtain ⟨tree, after, read, _⟩ := run_script_openWords formed_number
    (rfl : (unplaced [.keyword .ifWord, .int 1, .symbol .colon, .newline, .int 2,
      .eof]).map Placed.token = _)
  exact ⟨by simp, tree, after, read⟩

end Lingo.Grammar
