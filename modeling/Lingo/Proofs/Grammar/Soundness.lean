/-
What the grammar rules accept is in the language.

A script that was read is a phrase of the written form of scripts: no token that was passed
in an attempt given up later, and no tree read in one, gets into the result.
-/

import Lingo.Proofs.Grammar.Expression

namespace Lingo.Grammar

open Rule

/-- The tokens before the first end mark are a phrase that writes the tree that is read from
them. -/
theorem script_sound (tokens : List Placed) (words rest : List Token)
    (written : tokens.map Placed.token = words ++ .eof :: rest) (first : .eof ∉ words)
    (tree : Script) (after : Reading) (accepted : run script tokens = .ok (.success tree, after)) :
    Phrase.Script words tree.bare := by
  have held := keeps_script (endsAt_of_map written first) (tokens.length + 1) {}
  rw [show script (Level.of (tokens.length + 1)) tokens.toArray { cursor := 0, counts := {} } =
    .ok (.success tree, after) from accepted] at held
  obtain ⟨_, reached, read⟩ := held
  rw [reached, between_whole written] at read
  exact read

/-- A return without a value: what was tried behind it in vain is not part of it. -/
theorem script_sound_return :
    ∃ tree after,
      run script (unplaced [.keyword .returnWord, .eof]) = .ok (.success tree, after) ∧
      tree.bare = .list () [.giveBack () none] ∧
      Phrase.Script [.keyword .returnWord] tree.bare :=
  ⟨_, _, rfl, rfl,
    script_sound (unplaced [.keyword .returnWord, .eof]) [.keyword .returnWord] [] rfl (by simp) _ _
      rfl⟩

/-- The end mark alone is accepted, though statements are at least one. -/
theorem script_accepts_nothing :
    (∃ tree after, run script (unplaced [.eof]) = .ok (.success tree, after) ∧
      tree.bare = .list () []) ∧
    ¬ Phrase.Statements [] (.list () []) := by
  refine ⟨⟨_, _, rfl, rfl⟩, ?_⟩
  generalize nothing : ([] : List Token) = words
  intro read
  cases read

end Lingo.Grammar
