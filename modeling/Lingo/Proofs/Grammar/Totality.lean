/-
Reading any text comes to an end.

A text is refused at a character, or its tokens are read as a script or refused at a token.  Two
texts crash the reader: one with a whole number of too many digits, and one in which a whole
one-line loop over the elements of a collection was read.
-/

import Lingo.Fault
import Lingo.Proofs.Grammar.Expression
import Lingo.Proofs.Token.Places

namespace Lingo

namespace Rule

theorem Passes.covers {tokens : Array Placed} {α : Type} {rule : Rule α} {reading : Reading}
    {passed : List Nat} (passes : Passes tokens rule reading passed) :
    ∀ {reply : Reply α} {after : Reading}, rule tokens reading = .ok (reply, after) →
      ∀ index, reading.cursor ≤ index → index < after.cursor → index ∈ passed := by
  induction passes with
  | pure =>
      intro reply after ended index reached before
      cases ended
      omega
  | crash =>
      intro reply after ended
      cases ended
  | fail =>
      intro reply after ended index reached before
      cases ended
      omega
  | current =>
      intro reply after ended index reached before
      cases ended
      omega
  | remaining =>
      intro reply after ended index reached before
      cases ended
      omega
  | advance =>
      intro reply after ended index reached before
      cases ended
      exact List.mem_singleton.mpr (by simp only at before; omega)
  | @bind α β first next reading middle result passed more starts found goesOn one two =>
      intro reply after ended index reached before
      have rest : next result tokens middle = .ok (reply, after) := by
        have unfolded : (first >>= next) tokens reading = next result tokens middle := by
          change Rule.bind first next tokens reading = _
          simp only [Rule.bind, found]
        rw [← unfolded]
        exact ended
      rcases Nat.lt_or_ge index middle.cursor with early | late
      · exact List.mem_append_left more (one found index reached early)
      · exact List.mem_append_right passed (two rest index late before)
  | @stopped α β first next reading passed starts stops one =>
      intro reply after ended
      change Rule.bind first next tokens reading = _ at ended
      unfold Rule.bind at ended
      split at ended
      next result middle found => exact absurd found (stops result middle)
      next fault middle found =>
        cases ended
        exact one found
      next => cases ended
  | @register α part reading passed inside one =>
      intro reply after ended index reached before
      unfold Rule.register at ended
      split at ended
      next found =>
        cases ended
        exact one found index reached before
      next => cases ended
  | @registerOr α part expected reading passed inside one =>
      intro reply after ended
      unfold Rule.registerOr at ended
      split at ended
      next fault reached found =>
        split at ended
        · cases ended
          exact one found
        · cases ended
          exact one found
      next => exact one ended
  | @attempt α part reading passed inside one =>
      intro reply after ended index reached before
      unfold Rule.attempt at ended
      split at ended
      next found =>
        cases ended
        exact one found index reached before
      next found =>
        cases ended
        exact one found index reached (by simp only at before; omega)
      next => cases ended
  | knowing inside one => exact one

end Rule

namespace Grammar

open Rule

/-- Reading a text, and then its tokens, ends in one of these ways, and in no other.  If there are
tokens, the last one and no other is the end mark, and it is never passed. -/
theorem reading_ends (source : Source) :
    match Lexer.read source with
    | .refused cause _ _ => (Cause.text cause).heading ∈ ["Illegal Character", "Expected Character"]
    | .crashed cause =>
        cause = .unreadable ∧ ∃ before digits after,
          source.text.toList = before ++ (digits ++ after) ∧ Lexer.Overlong before digits after
    | .tokens tokens =>
        ∃ words passed,
          tokens.map Placed.token = words ++ [.eof] ∧ .eof ∉ words ∧
          Passes tokens.toArray (script (Level.of (tokens.length + 1))) { cursor := 0, counts := {} }
            passed ∧
          (∀ index ∈ passed, index < words.length) ∧
          match run script tokens with
          | .ok (.success tree, after) =>
              Phrase.Script words tree.bare ∧ after.cursor = words.length ∧
                ∀ index < words.length, index ∈ passed
          | .ok (.failure fault, after) =>
              (Cause.grammar fault.expected).heading = "Invalid Syntax" ∧
                after.cursor ≤ words.length
          | .error cause => cause = .inlineForEach ∧ LoopsInline tokens.toArray words.length := by
  cases lexed : Lexer.read source with
  | refused cause start stop => cases cause <;> simp [Cause.heading]
  | crashed cause => exact (Lexer.read_crashed_iff source cause).mp lexed
  | tokens tokens =>
      obtain ⟨words, written, first⟩ := Lexer.read_ends lexed
      have kept := keeps_wholeScript (endsAt_of_map written first) (tokens.length + 1)
      obtain ⟨passed, passes, inside⟩ := kept.passes {}
      refine ⟨words, passed, written, first, passes, inside, ?_⟩
      -- the levels are deeper than there are tokens, so no rule runs out of them
      have deep : ¬ tokens.length + 1 + 1 < tokens.toArray.size := by
        rw [List.size_toArray]
        omega
      have books := kept.balanced {}
      have loops := kept.loops {}
      unfold run
      cases outcome : script (Level.of (tokens.length + 1)) tokens.toArray
          { cursor := 0, counts := {} } with
      | error cause =>
          rw [outcome] at books loops
          rcases books with rfl | shallow
          · exact ⟨rfl, (loops rfl).resolve_right deep⟩
          · exact absurd shallow deep
      | ok ended =>
          rw [outcome] at books
          rcases ended with ⟨tree | fault, after⟩
          · obtain ⟨_, reached, read⟩ := books
            rw [reached, between_whole written] at read
            refine ⟨read, reached, fun index before => ?_⟩
            exact passes.covers outcome index (Nat.zero_le index) (by rw [reached]; exact before)
          · exact ⟨rfl, books.within⟩

end Grammar

end Lingo
