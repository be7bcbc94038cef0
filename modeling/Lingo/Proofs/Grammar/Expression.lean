/-
What the rules of expressions and statements read, and all rules of all levels.
-/

import Lingo.Proofs.Grammar.Construct

namespace Lingo

namespace Grammar

open Rule

variable {tokens : Array Placed} {last start : Nat} {shallow : Prop} {level : Level}

/-! ### Expressions -/

theorem keeps_nameAccess (ends : EndsAt tokens last) (within : start ≤ last) (name : String)
    (placed : Placed) (here : (tokenAt tokens start).token = .identifier name) :
    Keeps tokens last shallow (nameAccess name placed) start
      (Writes tokens Phrase.Atom start) := by
  unfold nameAccess
  refine keeps_writes ((keeps_pass ends within here (by simp)).passed fun _ nameInside => ?_)
  refine Keeps.ifSymbol ends nameInside (fun dotInside => ?_) ?_
  · refine (keeps_expectName ends dotInside _).passed fun pair stopInside => ?_
    obtain ⟨member, memberPlaced⟩ := pair
    exact keeps_result stopInside ⟨by omega, .member⟩
  · exact keeps_result nameInside ⟨Nat.lt_succ_self start, .name⟩

theorem keeps_prefixed {phrase : List Token → Bare → Prop} {op : UnaryOp} {operand : Rule Script}
    (ends : EndsAt tokens last) (within : start ≤ last)
    (here : (tokenAt tokens start).token = op.token)
    (behind : ∀ place, start < place → place ≤ last →
      Keeps tokens last shallow operand place (Writes tokens phrase place)) :
    Keeps tokens last shallow (prefixed op operand) start
      (Worded tokens start fun words tree stop => start < stop ∧ ∃ rest inner,
        words = op.token :: rest ∧ tree.bare = .unary () op inner ∧ phrase rest inner) := by
  unfold prefixed
  refine Keeps.current ((keeps_pass ends within here op.token_ne_eof).passed fun _ inside => ?_)
  refine (behind _ (Nat.lt_succ_self start) inside).register.moved
    fun inner _ stop stopInside moved read => ?_
  refine keeps_result stopInside ⟨by omega, _, inner.bare, ?_, rfl, read⟩
  rw [List.append_nil]

section

variable (ends : EndsAt tokens last) (below : Level.Below tokens last shallow (start + 1) level)

include ends below

section

variable (within : start ≤ last)

include within

theorem keeps_atom :
    Keeps tokens last shallow (atom level) start (Writes tokens Phrase.Atom start) := by
  -- Literals are one token each.
  have single : ∀ (token : Token) (tree : Script), (tokenAt tokens start).token = token →
      token ≠ .eof → Phrase.Atom [token] tree.bare →
      Keeps tokens last shallow (do advance; return tree) start
        (Writes tokens Phrase.Atom start) := by
    intro token tree here other phrase
    refine keeps_writes ((keeps_pass ends within here other).passed fun _ stopInside => ?_)
    exact keeps_result stopInside ⟨Nat.lt_succ_self start, phrase⟩
  unfold atom
  refine Keeps.current ?_
  cases here : (tokenAt tokens start).token with
  | int n => exact single _ _ here (by simp) .int
  | float x => exact single _ _ here (by simp) .float
  | string text => exact single _ _ here (by simp) .string
  | identifier name => exact keeps_nameAccess ends within name _ here
  | symbol symbol =>
      cases symbol with
      | leftParen =>
          refine keeps_writes ((keeps_pass ends within here (by simp)).passed fun _ inside => ?_)
          refine (below.expr _ (Nat.lt_succ_self start) inside).register.moved
            fun inner _ afterInner innerInside moved read => ?_
          refine (keeps_expectSymbol ends innerInside _ _).passed fun _ stopInside => ?_
          exact keeps_result stopInside ⟨by omega, .paren read⟩
      | leftSquare =>
          exact (keeps_listLiteral ends below within).register.imp
            fun _ _ _ _ read => ⟨read.1, .list read.2⟩
      | leftCurly =>
          exact (keeps_dictLiteral ends below within).register.imp
            fun _ _ _ _ read => ⟨read.1, .dict read.2⟩
      | _ => exact keeps_fail _ within
  | keyword word =>
      cases word with
      | ifWord =>
          exact (keeps_branch ends below within).register.imp
            fun _ _ _ _ read => ⟨read.1, .branch read.2⟩
      | forWord =>
          exact (keeps_forLoop ends below within).register.imp
            fun _ _ _ _ read => ⟨read.1, .forLoop read.2⟩
      | whileWord =>
          exact (keeps_whileLoop ends below within).register.imp
            fun _ _ _ _ read => ⟨read.1, .whileLoop read.2⟩
      | funcWord =>
          exact (keeps_functionDefinition ends below within).register.imp
            fun _ _ _ _ read => ⟨read.1, .function read.2⟩
      | _ => exact keeps_fail _ within
  | newline => exact keeps_fail _ within
  | eof => exact keeps_fail _ within

theorem keeps_call :
    Keeps tokens last shallow (call level) start (Writes tokens Phrase.Call start) := by
  unfold call
  refine keeps_writes ((keeps_atom ends below within).register.moved
    fun callee _ afterCallee calleeInside calleeMoved head => ?_)
  refine Keeps.ifSymbol ends calleeInside (fun openInside => ?_) ?_
  · refine Keeps.ifSymbol ends openInside (fun stopInside => ?_) ?_
    · exact Keeps.pure_bind (keeps_result stopInside ⟨by omega, .call head .none⟩)
    · refine (keeps_arguments ends below (by omega) openInside).words ?_
      rintro ⟨positional, optional⟩ _ afterGiven givenMoved givenInside given
      refine (keeps_expectSymbol ends givenInside _ _).passed fun _ stopInside => ?_
      exact Keeps.pure_bind (keeps_result stopInside ⟨by omega, .call head given⟩)
  · refine keeps_result calleeInside ⟨calleeMoved, ?_⟩
    rw [List.append_nil]
    exact .atom head

theorem keeps_power :
    Keeps tokens last shallow (power level) start (Writes tokens Phrase.Power start) :=
  (keeps_joined ends powerOperator?_some (keeps_call ends below within) below.factor).imp
    fun _ _ _ _ read => ⟨read.1, .calls read.2⟩

theorem keeps_factor :
    Keeps tokens last shallow (factor level) start (Writes tokens Phrase.Factor start) := by
  unfold factor
  refine Keeps.current ?_
  cases found : signOperator? (tokenAt tokens start).token with
  | none =>
      exact (keeps_power ends below within).imp fun _ _ _ _ read => ⟨read.1, .power read.2⟩
  | some op =>
      obtain ⟨known, here⟩ := signOperator?_some found
      refine (keeps_prefixed ends within here below.factor).imp ?_
      rintro tree stop _ _ ⟨moved, words, inner, written, shape, read⟩
      refine ⟨moved, ?_⟩
      rw [written, shape]
      exact .sign known read

theorem keeps_product :
    Keeps tokens last shallow (product level) start (Writes tokens Phrase.Product start) :=
  (keeps_joined ends productOperator?_some (keeps_factor ends below within)
    fun _ behind inside => keeps_factor ends (below.later (by omega)) inside).imp
    fun _ _ _ _ read => ⟨read.1, .factors read.2⟩

theorem keeps_sum : Keeps tokens last shallow (sum level) start (Writes tokens Phrase.Sum start) :=
  (keeps_joined ends sumOperator?_some (keeps_product ends below within)
    fun _ behind inside => keeps_product ends (below.later (by omega)) inside).imp
    fun _ _ _ _ read => ⟨read.1, .terms read.2⟩

theorem keeps_comparison :
    Keeps tokens last shallow (comparison level) start
      (Writes tokens Phrase.Comparison start) := by
  refine Keeps.atToken isKeyword_iff (fun here => ?_) (fun _ => ?_)
  · have negated : (tokenAt tokens start).token = UnaryOp.negation.token := here
    refine (keeps_prefixed ends within negated below.comparison).imp ?_
    rintro tree stop _ _ ⟨moved, words, inner, written, shape, read⟩
    refine ⟨moved, ?_⟩
    rw [written, shape]
    exact .negation read
  · exact ((keeps_joined ends comparisonOperator?_some (keeps_sum ends below within)
      fun _ behind inside => keeps_sum ends (below.later (by omega)) inside).registerOr
      _).imp fun _ _ _ _ read => ⟨read.1, .order read.2⟩

theorem keeps_expr :
    Keeps tokens last shallow (expr level) start (Writes tokens Phrase.Expr start) := by
  refine keeps_writes (Keeps.ifKeyword ends within (fun wordInside => ?_) fun _ => ?_)
  · refine (keeps_expectName ends wordInside _).passed fun pair nameInside => ?_
    obtain ⟨name, placed⟩ := pair
    refine (keeps_expectSymbol ends nameInside _ _).passed fun _ assignInside => ?_
    refine (below.expr _ (by omega) assignInside).register.moved
      fun value _ stop stopInside moved read => ?_
    refine keeps_result stopInside ⟨by omega, ?_⟩
    rw [List.append_nil]
    exact .assign read
  · exact ((keeps_joined ends logicOperator?_some (keeps_comparison ends below within)
      fun _ behind inside =>
        keeps_comparison ends (below.later (by omega)) inside).registerOr _).imp
      fun _ _ _ _ read => ⟨read.1, .logic read.2⟩

/-! ### Statements -/

theorem keeps_statement :
    Keeps tokens last shallow (statement level) start (Writes tokens Phrase.Statement start) := by
  have alone : ∀ (word : Keyword) (make : Span → Script),
      (tokenAt tokens start).token = .keyword word →
      (∀ span, Phrase.Statement [.keyword word] (make span).bare) → ∀ begun : Position,
      Keeps tokens last shallow
        (do
          advance
          return make { start := begun, stop := (← current).stop })
        start (Writes tokens Phrase.Statement start) := by
    intro word make here phrase begun
    refine keeps_writes ((keeps_pass ends within here (by simp)).passed fun _ stopInside => ?_)
    exact Keeps.current (keeps_result stopInside ⟨Nat.lt_succ_self start, phrase _⟩)
  unfold statement
  refine Keeps.current ?_
  refine Keeps.atToken isKeyword_iff (fun here => ?_) (fun _ => ?_)
  · apply (keeps_pass ends within here (by simp)).bind
    rintro _ _ _ wordInside ⟨rfl, opening⟩
    apply ((keeps_expr ends (below.later (by omega)) wordInside).attempt wordInside).bind
    intro value stop _ stopInside read
    refine Keeps.current (keeps_pure stopInside ?_)
    cases value with
    | none =>
        refine ⟨by omega, ?_⟩
        rw [read, opening]
        exact .giveBack
    | some value =>
        refine ⟨Nat.lt_of_succ_lt read.1, ?_⟩
        rw [between_cons opening (Nat.le_of_lt read.1)]
        exact .giveBackValue read.2
  · refine Keeps.atToken isKeyword_iff (fun here => ?_) (fun _ => ?_)
    · exact alone _ Tree.skip here (fun _ => .skip) _
    · refine Keeps.atToken isKeyword_iff (fun here => ?_) (fun _ => ?_)
      · exact alone _ Tree.leave here (fun _ => .leave) _
      · exact ((keeps_expr ends below within).registerOr _).imp
          fun _ _ _ _ read => ⟨read.1, .expr read.2⟩

end

theorem keeps_nextStatement {place : Nat} (onward : start ≤ place) (within : place ≤ last) :
    Keeps tokens last shallow (nextStatement level) place fun result stop =>
      match result with
      | some tree => place < stop ∧ ∃ lines words, between tokens place stop = lines ++ words ∧
          Phrase.LineEnds lines ∧ lines ≠ [] ∧ Phrase.Statement words tree.bare
      | none => Phrase.LineEnds (between tokens place stop) := by
  unfold nextStatement
  apply (keeps_skipNewlines ends within).bind
  intro passed afterLines moved linesInside held
  obtain ⟨rfl, lines⟩ := held
  by_cases none : passed = 0
  · rw [if_pos none]
    exact keeps_pure linesInside lines
  · rw [if_neg none]
    refine ((keeps_statement ends (below.later (by omega)) linesInside).attempt linesInside).imp ?_
    intro result stop stopMoved _ read
    cases result with
    | none =>
        rw [read]
        exact lines
    | some tree =>
        obtain ⟨ahead, phrase⟩ := read
        refine ⟨by omega, between tokens place (place + passed),
          between tokens (place + passed) stop, between_trans tokens moved stopMoved, lines, ?_,
          phrase⟩
        have inside := ends.inside
        rw [between_trans tokens (Nat.le_succ place) (by omega : place + 1 ≤ place + passed),
          between_one tokens (by omega)]
        simp

theorem keeps_statements (within : start ≤ last) :
    Keeps tokens last shallow (statements level) start
      (Writes tokens Phrase.Statements start) := by
  unfold statements
  refine Keeps.current ((keeps_skipNewlines ends within).bind ?_)
  intro _ afterLines linesMoved linesInside held
  obtain ⟨_, opening⟩ := held
  apply (keeps_statement ends (below.later (by omega)) linesInside).register.bind
  rintro first afterFirst _ firstInside ⟨firstMoved, head⟩
  -- The line ends behind the last statement belong to the statements too.
  have others : Keeps tokens last shallow (many (nextStatement level)) afterFirst fun found stop =>
      ∃ words lines, between tokens afterFirst stop = words ++ lines ∧
        Phrase.MoreStatements words (found.map Tree.bare) ∧ Phrase.LineEnds lines := by
    refine keeps_many ends firstInside
      (fun found place => Phrase.MoreStatements (between tokens afterFirst place)
        (found.map Tree.bare)) ?_ ?_
    · rw [between_self]
      exact .none
    · intro found place begun inside held
      refine (keeps_nextStatement ends below (by omega) inside).imp ?_
      intro result stop moved _ read
      cases result with
      | none => exact ⟨_, _, between_trans tokens begun moved, held, read⟩
      | some tree =>
          obtain ⟨ahead, lines, words, written, ended, some, phrase⟩ := read
          refine ⟨ahead, ?_⟩
          rw [between_trans tokens begun moved, written, List.map_append]
          exact held.more ended some phrase
  refine others.bind ?_
  intro found stop moved stopInside held
  obtain ⟨words, lines, written, rest, closing⟩ := held
  refine Keeps.current (keeps_pure stopInside ⟨by omega, ?_⟩)
  rw [between_trans tokens linesMoved (by omega : afterLines ≤ stop),
    between_trans tokens (Nat.le_of_lt firstMoved) moved, written, Tree.bare, Tree.bareAll,
    Tree.bareAll_eq_map]
  exact .lines opening head rest closing

end

/-! ### All levels -/

/-- The rules of every level read what they should.  A level that is too low for the tokens
that are left crashes; otherwise only the loop that has no meaning does. -/
theorem below_of (ends : EndsAt tokens last) (depth : Nat) :
    ∀ start, Level.Below tokens last (depth + start < tokens.size) start (Level.of depth) := by
  have inside := ends.inside
  induction depth with
  | zero =>
      intro start
      constructor
      case cases =>
        intro spelling place onward within
        exact keeps_crash .tooDeep (by omega)
      all_goals
        intro place onward within
        exact keeps_crash .tooDeep (by omega)
  | succ depth ih =>
      intro start
      have deeper : ∀ {α : Type} {rule : Rule α} {post : α → Nat → Prop} {place : Nat},
          start ≤ place → Keeps tokens last (depth + (place + 1) < tokens.size) rule place post →
          Keeps tokens last (depth + 1 + start < tokens.size) rule place post := by
        intro α rule post place onward keeps
        exact keeps.mono (fun _ _ _ _ held => held) (by omega)
      exact
        { statements := fun place onward within =>
            deeper onward (keeps_statements ends (ih (place + 1)) within)
          statement := fun place onward within =>
            deeper onward (keeps_statement ends (ih (place + 1)) within)
          expr := fun place onward within =>
            deeper onward (keeps_expr ends (ih (place + 1)) within)
          comparison := fun place onward within =>
            deeper onward (keeps_comparison ends (ih (place + 1)) within)
          factor := fun place onward within =>
            deeper onward (keeps_factor ends (ih (place + 1)) within)
          atom := fun place onward within =>
            deeper onward (keeps_atom ends (ih (place + 1)) within)
          cases := fun spelling place onward within =>
            deeper onward (keeps_cases ends (ih (place + 1)) within spelling) }

/-! ### Whole scripts -/

def unplaced (words : List Token) : List Placed :=
  words.map fun token => { token, start := default, stop := default }

section

variable {tokens : List Placed} {words rest : List Token}
  (written : tokens.map Placed.token = words ++ .eof :: rest)

include written

theorem endsAt_of_map (first : .eof ∉ words) : EndsAt tokens.toArray words.length := by
  have length : tokens.length = words.length + (rest.length + 1) := by
    have counted := congrArg List.length written
    simpa using counted
  have inside : words.length < tokens.toArray.size := by
    simp only [List.size_toArray]
    omega
  have token : ∀ index, index < tokens.toArray.size →
      some (tokenAt tokens.toArray index).token = (words ++ .eof :: rest)[index]? := by
    intro index before
    rw [tokenAt_of_lt tokens.toArray before, ← written, List.getElem?_map]
    simp only [List.size_toArray] at before
    simp [before]
  refine ⟨inside, ?_, ?_⟩
  · have here := token words.length inside
    rw [List.getElem?_append_right (Nat.le_refl _), Nat.sub_self] at here
    exact Option.some.inj here
  · intro index before mark
    have here := token index (Nat.lt_trans before inside)
    rw [List.getElem?_append_left before, mark] at here
    exact first (List.mem_of_getElem? here.symm)

theorem between_whole : between tokens.toArray 0 words.length = words := by
  simp [between, written]

end

theorem keeps_wholeScript (ends : EndsAt tokens last) (depth : Nat) :
    Keeps tokens last (depth + 1 < tokens.size) (script (Level.of depth)) 0 fun tree stop =>
      stop = last ∧ Phrase.Script (between tokens 0 stop) tree.bare := by
  have inside := ends.inside
  refine @Keeps.knowing Script tokens last 0 (depth + 1 < tokens.size) _
    (fun tokens => do
      let placed ← current
      if tokens.size = 1 ∧ placed.token.isEof then
        return .list { start := placed.start, stop := placed.stop } []
      else
        let tree ← statements (Level.of depth)
        if (← current).token.isEof then return tree else fail .operator) ?_
  refine Keeps.current ?_
  by_cases alone : tokens.size = 1 ∧ (tokenAt tokens 0).token.isEof = true
  · rw [if_pos alone]
    refine keeps_pure (Nat.zero_le last) ⟨by omega, ?_⟩
    rw [between_self]
    exact .empty
  · rw [if_neg alone]
    apply (keeps_statements ends (below_of ends depth 1) (Nat.zero_le last)).bind
    rintro tree stop _ stopInside ⟨_, read⟩
    refine Keeps.current ?_
    by_cases mark : (tokenAt tokens stop).token.isEof = true
    · rw [if_pos mark]
      refine keeps_pure stopInside ⟨?_, .lines read⟩
      rcases Nat.lt_or_eq_of_le stopInside with before | same
      · exact absurd (isEof_iff.mp mark) (ends.before stop before)
      · exact same
    · rw [if_neg mark]
      exact keeps_fail _ stopInside

theorem keeps_script (ends : EndsAt tokens last) (depth : Nat) :
    Balanced tokens last (depth + 1 < tokens.size) (script (Level.of depth)) 0 fun tree stop =>
      stop = last ∧ Phrase.Script (between tokens 0 stop) tree.bare :=
  (keeps_wholeScript ends depth).balanced

end Grammar

end Lingo
