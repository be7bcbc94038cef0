/-
Statements on lines of their own.

No statement begins with a token that closes a construct; this is how the reader knows
where a sequence of statements ends.  A sequence is read statement by statement, each
behind a line end.
-/

import Lingo.Proofs.Grammar.Precedence

namespace Lingo

namespace Token

/-- What may follow an expression that stands alone. -/
def ends : Token → Bool
  | newline | eof | symbol .rightParen => true
  | _ => false

/-- What may follow a statement on one line: the end of the whole, or a further case. -/
def closes : Token → Bool
  | keyword .elifWord | keyword .elseWord => true
  | token => token.ends

def shuts : Token → Bool
  | keyword .endWord | keyword .elifWord | keyword .elseWord | symbol .rightCurly => true
  | _ => false

theorem closes_of_ends {token : Token} (ends : token.ends = true) : token.closes = true := by
  unfold closes
  split
  · rfl
  · rfl
  · exact ends

/-- No expression begins with a token that closes a statement, and none goes on with it. -/
theorem opening_pull_of_closes {token : Token} (closing : token.closes = true) :
    token.opening = 0 ∧ token.pull = 0 := by
  unfold closes ends at closing
  split at closing
  · exact ⟨rfl, rfl⟩
  · exact ⟨rfl, rfl⟩
  · split at closing <;> first | exact ⟨rfl, rfl⟩ | cases closing

end Token

namespace Grammar

open Rule

/-! ### Where no expression begins -/

section

variable {token : Token} {rest : List Token}

theorem refuses_atom (closed : token.opening = 0) (level : Level) :
    Refuses (atom level) (token :: rest) := by
  unfold atom
  apply Refuses.current
  intro placed here
  rw [here]
  dsimp only
  split <;> first | exact absurd closed (Nat.succ_ne_zero 9) | exact refuses_fail _

theorem refuses_joined {operator? : Token → Option BinaryOp} {first right : Rule Script}
    {words : List Token} (refuses : Refuses first words) :
    Refuses (joined operator? first right) words :=
  refuses.register.bind

theorem refuses_factor (closed : token.opening = 0) (level : Level) :
    Refuses (factor level) (token :: rest) := by
  have noSign : signOperator? token = none := by
    cases found : signOperator? token with
    | none => rfl
    | some op =>
        obtain ⟨_, same⟩ := signOperator?_some found
        rw [same, opening_token] at closed
        exact absurd closed (Nat.succ_ne_zero _)
  have call : Refuses (call level) (token :: rest) := (refuses_atom closed level).register.bind
  unfold factor
  apply Refuses.current
  intro placed here
  rw [here, noSign]
  exact refuses_joined call

theorem refuses_expr (closed : token.opening = 0) (level : Level) :
    Refuses (expr level) (token :: rest) := by
  have noAssignment : Begins (· ≠ .keyword .varWord) (token :: rest) := by
    intro same
    rw [same] at closed
    exact absurd closed (Nat.succ_ne_zero 0)
  have noNegation : Begins (· ≠ .keyword .notWord) (token :: rest) := by
    intro same
    rw [same] at closed
    exact absurd closed (Nat.succ_ne_zero 2)
  have sums : Refuses (sum level) (token :: rest) :=
    refuses_joined (refuses_joined (refuses_factor closed level))
  have comparisons : Refuses (comparison level) (token :: rest) := by
    unfold comparison
    apply Refuses.notAtKeyword noNegation
    exact (refuses_joined sums).registerOr _
  unfold expr
  apply Refuses.notAtKeyword noAssignment
  exact (refuses_joined comparisons).registerOr _

theorem refuses_statement_of_ne (closed : token.opening = 0)
    (noReturn : token ≠ .keyword .returnWord) (noContinue : token ≠ .keyword .continueWord)
    (noBreak : token ≠ .keyword .breakWord) (level : Level) :
    Refuses (statement level) (token :: rest) := by
  unfold statement
  apply Refuses.current
  intro placed here
  apply Refuses.notAtKeyword (show Begins (· ≠ .keyword .returnWord) (token :: rest) from noReturn)
  apply Refuses.notAtKeyword
    (show Begins (· ≠ .keyword .continueWord) (token :: rest) from noContinue)
  apply Refuses.notAtKeyword (show Begins (· ≠ .keyword .breakWord) (token :: rest) from noBreak)
  exact (refuses_expr closed level).registerOr _

theorem refuses_statement (closed : token.shuts = true) (level : Level) :
    Refuses (statement level) (token :: rest) := by
  unfold Token.shuts at closed
  split at closed
  all_goals
    first
    | exact refuses_statement_of_ne rfl (by simp) (by simp) (by simp) level
    | cases closed

theorem refuses_statement_eof (level : Level) : Refuses (statement level) (.eof :: rest) :=
  refuses_statement_of_ne rfl Token.noConfusion Token.noConfusion Token.noConfusion level

end

/-! ### One statement -/

/-- Words state a tree: the rule for statements reads them in front of good tokens. -/
structure States (good : Token → Prop) (words : List Token) (tree : Bare) : Prop where
  opening : Begins (· ≠ .newline) words
  parses : ∀ rest : List Token, Begins good rest →
    Parses statement (words ++ rest) rest fun result => result.bare = tree

section

variable {good : Token → Prop} {words : List Token} {tree : Bare}

theorem Spells.states (spells : Spells good 0 words tree)
    (closing : ∀ token, good token → token.closes = true) : States good words tree := by
  have plain : ∀ {token : Token}, 0 < token.opening → token ≠ .newline ∧
      token ≠ .keyword .returnWord ∧ token ≠ .keyword .continueWord ∧
      token ≠ .keyword .breakWord := by
    intro token opening
    refine ⟨?_, ?_, ?_, ?_⟩ <;> rintro rfl <;> exact absurd opening (by decide)
  refine ⟨spells.opening.imp fun _ opening => (plain opening).1, ?_⟩
  intro rest goodRest depth enough
  have loose : Begins (fun token => token.pull ≤ 0) rest := by
    apply goodRest.imp
    intro token known
    exact Nat.le_of_eq (Token.opening_pull_of_closes (closing token known)).2
  have begins := spells.opening.append rest
  unfold statement
  apply Reads.anyCurrent
  intro placed
  apply Reads.notAtKeyword (begins.imp fun _ opening => (plain opening).2.1)
  apply Reads.notAtKeyword (begins.imp fun _ opening => (plain opening).2.2.1)
  apply Reads.notAtKeyword (begins.imp fun _ opening => (plain opening).2.2.2)
  exact (spells.parses rest goodRest loose depth enough).registerOr _

theorem states_giveBack_nothing (closing : ∀ token, good token → token.closes = true) :
    States good [.keyword .returnWord] (.giveBack () none) := by
  refine ⟨by simp [Begins], ?_⟩
  intro rest goodRest depth enough
  obtain ⟨token, others, rfl, known⟩ := goodRest.exists_eq_cons
  have closed := (Token.opening_pull_of_closes (closing token known)).1
  unfold statement
  apply Reads.anyCurrent
  intro placed
  apply Reads.atKeyword
  apply Reads.advance
  apply (refuses_expr closed (Level.of depth)).attempt.bind
  intro result nothing
  rw [nothing]
  apply Reads.anyCurrent
  intro stop
  exact reads_pure rfl

theorem Spells.states_giveBack (spells : Spells good 0 words tree)
    (closing : ∀ token, good token → token.closes = true) :
    States good (.keyword .returnWord :: words) (.giveBack () (some tree)) := by
  refine ⟨by simp [Begins], ?_⟩
  intro rest goodRest depth enough
  have loose : Begins (fun token => token.pull ≤ 0) rest := by
    apply goodRest.imp
    intro token known
    exact Nat.le_of_eq (Token.opening_pull_of_closes (closing token known)).2
  have fits : (words ++ rest).length ≤ depth := Nat.le_of_succ_le enough
  unfold statement
  apply Reads.anyCurrent
  intro placed
  apply Reads.atKeyword
  apply Reads.advance
  apply (spells.parses rest goodRest loose depth fits).attempt.bind
  intro result found
  obtain ⟨value, rfl, same⟩ := found
  apply Reads.anyCurrent
  intro stop
  apply reads_pure
  rw [Tree.bare, Tree.bareOption, same]

theorem states_skip : States good [.keyword .continueWord] (.skip ()) := by
  refine ⟨by simp [Begins], ?_⟩
  intro rest _ depth _
  unfold statement
  apply Reads.anyCurrent
  intro placed
  apply Reads.notAtKeyword (by simp [Begins])
  apply Reads.atKeyword
  apply Reads.advance
  apply Reads.anyCurrent
  intro stop
  exact reads_pure rfl

theorem states_leave : States good [.keyword .breakWord] (.leave ()) := by
  refine ⟨by simp [Begins], ?_⟩
  intro rest _ depth _
  unfold statement
  apply Reads.anyCurrent
  intro placed
  apply Reads.notAtKeyword (by simp [Begins])
  apply Reads.notAtKeyword (by simp [Begins])
  apply Reads.atKeyword
  apply Reads.advance
  apply Reads.anyCurrent
  intro stop
  exact reads_pure rfl

end

/-! ### Sequences of statements -/

def separated (separator : Token) : List (List Token) → List Token
  | [] => []
  | first :: others => first ++ others.flatMap (separator :: ·)

theorem map_bare_of_forall₂ {γ : Type} {view : γ → Bare} {pieces : List γ} {results : List Script}
    (all : List.Forall₂ (fun piece result => result.bare = view piece) pieces results) :
    Tree.bareAll results = pieces.map view := by
  induction all with
  | nil => rfl
  | cons same _ ih => rw [Tree.bareAll, same, ih, List.map_cons]

section

variable {good : Token → Prop} {lines : List (List Token × Bare)} {tail left : List Token}

theorem reads_nextStatement {line : List Token × Bare} {rest : List Token} {depth : Nat}
    (states : States good line.1 line.2) (ends : Begins good rest)
    (enough : (.newline :: line.1 ++ rest).length ≤ depth) :
    Reads (nextStatement (Level.of depth)) (.newline :: line.1 ++ rest) rest fun result =>
      ∃ found, result = some found ∧ found.bare = line.2 := by
  have fits : (line.1 ++ rest).length ≤ depth := Nat.le_of_succ_le enough
  unfold nextStatement
  apply (reads_skipNewlines 1 (states.opening.append rest)).bind
  intro count one
  rw [one]
  exact (states.parses rest ends depth fits).attempt

/-- Statements are read line by line, up to a tail where no further statement is found. -/
theorem parses_statements {first : List Token × Bare}
    (states : ∀ line ∈ first :: lines, States good line.1 line.2)
    (between : lines ≠ [] → good .newline) (ends : Begins good tail)
    (final : ∀ level, Reads (nextStatement level) tail left fun result => result = none) :
    Parses statements (separated .newline ((first :: lines).map Prod.fst) ++ tail) left
      fun result => result.bare = .list () ((first :: lines).map Prod.snd) := by
  intro depth enough
  have spelt : separated .newline ((first :: lines).map Prod.fst) ++ tail =
      first.1 ++ (lines.flatMap (fun line => .newline :: line.1) ++ tail) := by
    rw [List.map_cons, separated, List.append_assoc, List.flatMap_map]
  rw [spelt] at enough ⊢
  have here := states first List.mem_cons_self
  have fits : (lines.flatMap (fun line => .newline :: line.1) ++ tail).length ≤ depth := by
    rw [List.length_append] at enough
    omega
  have goodRest : Begins good (lines.flatMap (fun line => .newline :: line.1) ++ tail) := by
    cases lines with
    | nil => exact ends
    | cons line lines => exact between (List.cons_ne_nil line lines)
  unfold statements
  apply Reads.anyCurrent
  intro placed
  apply (reads_skipNewlines 0 (here.opening.append _)).bind
  intro _ _
  apply (here.parses _ goodRest depth enough).register.bind
  intro script same
  have more : Reads (many (nextStatement (Level.of depth)))
      (lines.flatMap (fun line => .newline :: line.1) ++ tail) left
      (List.Forall₂ (fun line result => result.bare = line.2) lines) := by
    have begins : ∀ line ∈ lines, Begins good (.newline :: line.1) :=
      fun _ member => between (List.ne_nil_of_mem member)
    refine reads_many begins ?_ (final (Level.of depth)) ends fits
    intro line member rest endsRest inside
    exact reads_nextStatement (states line (List.mem_cons_of_mem first member)) endsRest inside
  apply more.bind
  intro scripts all
  apply Reads.anyCurrent
  intro stop
  apply reads_pure
  rw [Tree.bare, Tree.bareAll, same, map_bare_of_forall₂ all, List.map_cons]

theorem parses_block {closer : Token} {rest : List Token} (some : lines ≠ [])
    (states : ∀ line ∈ lines, States (fun token => token.ends = true) line.1 line.2)
    (shuts : closer.shuts = true) :
    Parses statements (separated .newline (lines.map Prod.fst) ++ .newline :: closer :: rest)
      (closer :: rest) fun result => result.bare = .list () (lines.map Prod.snd) := by
  have notNewline : Begins (· ≠ .newline) (closer :: rest) := by
    intro same
    rw [same] at shuts
    exact absurd shuts (by decide)
  have final : ∀ level, Reads (nextStatement level) (.newline :: closer :: rest) (closer :: rest)
      fun result => result = none := by
    intro level
    unfold nextStatement
    apply (reads_skipNewlines 1 notNewline).bind
    intro count one
    rw [one]
    exact (refuses_statement shuts level).attempt
  cases lines with
  | nil => exact absurd rfl some
  | cons first lines => exact parses_statements states (fun _ => rfl) rfl final

theorem reads_nextStatement_eof {rest : List Token} (level : Level) :
    Reads (nextStatement level) (.eof :: rest) (.eof :: rest) fun result => result = none := by
  have notNewline : Begins (· ≠ .newline) (Token.eof :: rest) := by
    simp [Begins]
  unfold nextStatement
  apply (reads_skipNewlines 0 notNewline).bind
  intro count zero
  rw [zero]
  exact reads_pure rfl

variable {tokens : List Placed}
  (written : tokens.map Placed.token = separated .newline (lines.map Prod.fst) ++ [.eof])

include written

theorem run_script_of_good_states (states : ∀ line ∈ lines, States good line.1 line.2)
    (between : lines.tail ≠ [] → good .newline) (mark : good .eof) :
    ∃ tree after, run script tokens = .ok (.success tree, after) ∧
      tree.bare = .list () (lines.map Prod.snd) := by
  have whole : ahead tokens.toArray 0 = separated .newline (lines.map Prod.fst) ++ [.eof] := written
  have count := congrArg List.length written
  rw [List.length_map, List.length_append, List.length_singleton] at count
  -- The body of the rule, with the level that a run begins at.
  suffices opened : Reads
      (do
        let placed ← current
        if tokens.toArray.size = 1 ∧ placed.token.isEof then
          return .list { start := placed.start, stop := placed.stop } []
        else
          let tree ← statements (Level.of (tokens.length + 1))
          if (← current).token.isEof then return tree else fail .operator)
      (separated .newline (lines.map Prod.fst) ++ [.eof]) [.eof]
      fun tree => tree.bare = .list () (lines.map Prod.snd) by
    obtain ⟨tree, after, done, _, same⟩ := opened tokens.toArray 0 {} whole
    exact ⟨tree, after, done, same⟩
  cases lines with
  | nil =>
      have single : tokens.toArray.size = 1 := count
      apply Reads.current
      intro placed here
      rw [here, if_pos ⟨single, rfl⟩]
      exact reads_pure rfl
  | cons first lines =>
      have several : ¬ tokens.toArray.size = 1 := by
        obtain ⟨token, others, begun, _⟩ := (states first List.mem_cons_self).opening.exists_eq_cons
        rw [List.map_cons, separated, begun, List.cons_append, List.length_cons] at count
        change ¬ tokens.length = 1
        omega
      apply Reads.anyCurrent
      intro placed
      rw [if_neg fun both => several both.1]
      have fits : (separated .newline ((first :: lines).map Prod.fst) ++ [Token.eof]).length ≤
          tokens.length + 1 := by
        rw [List.length_append, List.length_singleton]
        omega
      have ends : Begins good [Token.eof] := mark
      apply (parses_statements states between ends reads_nextStatement_eof _ fits).bind
      intro tree same
      apply Reads.current
      intro stop here
      rw [here]
      exact reads_pure same

theorem run_script_of_states
    (states : ∀ line ∈ lines, States (fun token => token.ends = true) line.1 line.2) :
    ∃ tree after, run script tokens = .ok (.success tree, after) ∧
      tree.bare = .list () (lines.map Prod.snd) :=
  run_script_of_good_states written states (fun _ => rfl) rfl

end

end Grammar

end Lingo
