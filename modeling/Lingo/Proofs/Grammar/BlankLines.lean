/-
Blank lines do not matter.

Two rows of tokens that differ in the lengths of their runs of line ends are read in the same way.
Line ends are looked at in front of a body, where one of them is passed, and between statements,
where all of them are.
-/

import Lingo.Proofs.Grammar.Parallel

namespace Lingo

namespace Grammar

open Rule Versions

variable {pair : Rows} {place other : Nat}

theorem agree_nextStatement {depth otherDepth : Nat}
    (below : pair.lines.Below (Level.of depth) (Level.of otherDepth))
    (abreast : pair.Abreast place other) :
    pair.lines.Agree (nextStatement (Level.of depth)) (nextStatement (Level.of otherDepth)) place other
      (Option.map Tree.bare) := by
  refine abreast.agree_skipNewlines.bind ?_
  intro passed otherPassed _ _ same onward
  by_cases none : passed = 0
  · have otherNone : otherPassed = 0 := by simpa [none] using same
    simp only [if_pos none, if_pos otherNone]
    exact agree_pure onward rfl
  · have otherSome : otherPassed ≠ 0 := by simpa [none] using same
    simp only [if_neg none, if_neg otherSome]
    exact (agree_statement below onward).attempt onward
      (IsRule.statement.keeps pair.ends depth (pair.lines.within onward))
      (IsRule.statement.keeps pair.otherEnds otherDepth (pair.lines.otherWithin onward))

theorem agree_statements {depth otherDepth : Nat}
    (below : pair.lines.Below (Level.of depth) (Level.of otherDepth))
    (near : pair.Near place other) :
    pair.lines.Agree (statements (Level.of depth)) (statements (Level.of otherDepth)) place other
      Tree.bare := by
  refine Agree.anyCurrent fun _ _ => near.agree_skipNewlines.bind ?_
  intro _ _ _ _ _ abreast
  refine (agree_statement below abreast).register.bind ?_
  intro first otherFirst _ _ same firstRead
  refine (agree_many firstRead fun _ _ onward => agree_nextStatement below onward).bind ?_
  intro others otherOthers _ _ alike othersRead
  refine Agree.anyCurrent fun _ _ => agree_pure othersRead ?_
  simp only [Tree.bare, Tree.bareAll_eq_map, List.map_cons, same, alike]

/-! ### Whole scripts -/

theorem size_eq_one {tokens : Array Placed} {last : Nat} (ends : EndsAt tokens last)
    (size : tokens.size = last + 1) (mark : (tokenAt tokens 0).token = .eof) : tokens.size = 1 := by
  by_contra long
  exact ends.before 0 (by omega) mark

theorem agree_script (size : pair.tokens.size = pair.last + 1)
    (otherSize : pair.others.size = pair.otherLast + 1) (abreast : pair.Abreast 0 0)
    (depth otherDepth : Nat) :
    pair.lines.Agree (script (Level.of depth)) (script (Level.of otherDepth)) 0 0 Tree.bare := by
  intro counts otherCounts
  unfold script
  refine Agree.look abreast.same_token ?_ counts otherCounts
  intro token start stop otherStart otherStop here
  have there := abreast.same_token.symm.trans here
  by_cases mark : token.isEof = true
  · rw [isEof_iff.mp mark] at here there
    rw [if_pos ⟨size_eq_one pair.ends size here, mark⟩,
      if_pos ⟨size_eq_one pair.otherEnds otherSize there, mark⟩]
    exact agree_pure abreast rfl
  · rw [if_neg fun alone => mark alone.2, if_neg fun alone => mark alone.2]
    refine (agree_statements (below_of_levels agree_statements depth otherDepth)
      abreast.near).bind ?_
    intro tree otherTree _ _ same read
    refine Agree.look (Rows.Abreast.same_token read) ?_
    intro final _ _ _ _ _
    by_cases ended : final.isEof = true
    · rw [if_pos ended, if_pos ended]
      exact agree_pure read same
    · rw [if_neg ended, if_neg ended]
      exact agree_fail

/-- Two readings come to the same: trees that are equal but for their places, an error in both, or
the one-line loop that has no meaning in both. -/
inductive SameReading :
    Except Crash (Reply Script × Reading) → Except Crash (Reply Script × Reading) → Prop where
  | read {tree otherTree : Script} {after otherAfter : Reading}
    (same : tree.bare = otherTree.bare) :
      SameReading (.ok (.success tree, after)) (.ok (.success otherTree, otherAfter))
  | refused {fault otherFault : SyntaxFault} {after otherAfter : Reading} :
      SameReading (.ok (.failure fault, after)) (.ok (.failure otherFault, otherAfter))
  | inlineForEach : SameReading (.error .inlineForEach) (.error .inlineForEach)

/-- There are levels enough for all tokens of a row: only the loop without a meaning crashes. -/
theorem cause_of_run_script {tokens : List Placed} {last : Nat} {cause : Crash}
    (ends : EndsAt tokens.toArray last) (crashed : run script tokens = .error cause) :
    cause = .inlineForEach := by
  have held := keeps_script ends (tokens.length + 1) {}
  rw [show script (Level.of (tokens.length + 1)) tokens.toArray { cursor := 0, counts := {} } =
    .error cause from crashed] at held
  rcases held with loop | shallow
  · exact loop
  · rw [List.size_toArray] at shallow
    omega

theorem sameReading_of_corresponds {answer otherAnswer : Except Crash (Reply Script × Reading)}
    (corresponds : pair.lines.Corresponds Tree.bare answer otherAnswer)
    (known : ∀ {cause}, answer = .error cause → cause = .inlineForEach)
    (otherKnown : ∀ {cause}, otherAnswer = .error cause → cause = .inlineForEach) :
    SameReading answer otherAnswer := by
  cases corresponds with
  | success same _ => exact .read same
  | failure => exact .refused
  | crashed =>
      cases known rfl
      exact .inlineForEach
  | tooDeep => cases known rfl
  | otherTooDeep => cases otherKnown rfl
  | broken broken => exact broken.elim

/-- Blank lines do not matter: let the end mark stand at the end of the tokens and nowhere else.
With one line end in the place of every run of them, wherever these tokens stand, reading comes
to the same. -/
theorem script_of_collapsed_lines (tokens collapsed : List Placed) (words : List Token)
    (written : tokens.map Placed.token = words ++ [.eof]) (once : .eof ∉ words)
    (fewer : collapsed.map Placed.token = Token.collapse (tokens.map Placed.token)) :
    SameReading (run script tokens) (run script collapsed) := by
  have rewritten : collapsed.map Placed.token = Token.collapse words ++ [.eof] := by
    rw [fewer, written, Token.collapse_append_eof]
  have ends := endsAt_of_map written once
  have otherEnds := endsAt_of_map rewritten fun found => once (Token.mem_of_mem_collapse found)
  let pair : Rows :=
    { tokens := tokens.toArray, others := collapsed.toArray, last := words.length
      otherLast := (Token.collapse words).length, ends, otherEnds }
  have abreast : pair.Abreast 0 0 := by
    refine ⟨Nat.zero_le _, Nat.zero_le _, ?_⟩
    change Token.collapse (tokens.map Placed.token) = Token.collapse (collapsed.map Placed.token)
    rw [fewer, Token.collapse_collapse]
  have size : tokens.toArray.size = words.length + 1 := by
    simpa using congrArg List.length written
  have otherSize : collapsed.toArray.size = (Token.collapse words).length + 1 := by
    simpa using congrArg List.length rewritten
  have agree := agree_script size otherSize abreast (tokens.length + 1) (collapsed.length + 1)
  exact sameReading_of_corresponds (agree {} {}) (cause_of_run_script ends)
    (cause_of_run_script otherEnds)

/-- A blank line in front of the body of a loop, and two behind it. -/
theorem script_of_spaced_loop :
    Token.eof ∉ [.keyword .whileWord, .int 0, .symbol .colon, .newline, .newline, .keyword .breakWord,
      .newline, .newline, .newline, .keyword .endWord] ∧
    SameReading
      (run script (unplaced [.keyword .whileWord, .int 0, .symbol .colon, .newline, .newline,
        .keyword .breakWord, .newline, .newline, .newline, .keyword .endWord, .eof]))
      (run script (unplaced [.keyword .whileWord, .int 0, .symbol .colon, .newline,
        .keyword .breakWord, .newline, .keyword .endWord, .eof])) := by
  have once : Token.eof ∉ [.keyword .whileWord, .int 0, .symbol .colon, .newline, .newline,
      .keyword .breakWord, .newline, .newline, .newline, .keyword .endWord] := by simp
  exact ⟨once, script_of_collapsed_lines _ _ _ rfl once rfl⟩

end Grammar

end Lingo
