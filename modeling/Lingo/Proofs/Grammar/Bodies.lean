/-
Constructs with bodies: branches, loops and functions.

A body is a block of statements on lines of their own, or one statement.  A block is closed
by a word, or by the next case; a statement on one line by whatever ends the construct.
-/

import Lingo.Proofs.Grammar.Assembly

namespace Lingo.Grammar

open Rule

variable {final : Option (Bool × List Token × Bare)}

/-- Words are a block: they are read as its statements up to a line end and a closing token. -/
def BlockOf (words : List Token) (tree : Bare) : Prop :=
  ∀ (closer : Token) (rest : List Token), closer.shuts = true →
    Parses statements (words ++ .newline :: closer :: rest) (closer :: rest)
      fun result => result.bare = tree

abbrev LineOf (words : List Token) (tree : Bare) : Prop :=
  States (fun token => token.closes = true) words tree

def BodyOf (block : Bool) (words : List Token) (tree : Bare) : Prop :=
  if block then BlockOf words tree else LineOf words tree

def closedBody (block : Bool) (words : List Token) : List Token :=
  if block then .newline :: (words ++ [.newline, .keyword .endWord]) else words

variable {words rest : List Token} {tree : Bare} {depth : Nat} {block : Bool}

section

variable {α : Type} {left : List Token} {post : α → Prop} {next : Bool → Rule α}

theorem reads_isBlock (reads : Reads (next true) (.newline :: words) left post) :
    Reads (isBlock >>= next) (.newline :: words) left post :=
  Reads.test Token.isNewline rfl reads

theorem reads_notBlock (away : Begins (· ≠ .newline) words)
    (reads : Reads (next false) words left post) : Reads (isBlock >>= next) words left post :=
  Reads.test Token.isNewline
    (away.imp fun _ other => Bool.eq_false_iff.mpr (mt isNewline_iff.mp other)) reads

end

theorem BlockOf.reads {closer : Token} (body : BlockOf words tree) (shuts : closer.shuts = true)
    (shorter : (words ++ .newline :: closer :: rest).length < depth) :
    Reads (Level.of depth).statements (words ++ .newline :: closer :: rest) (closer :: rest)
      fun result => result.bare = tree :=
  (body closer rest shuts).down Level.statements (fun _ => rfl) shorter

theorem LineOf.reads (line : LineOf words tree)
    (closing : Begins (fun token => token.closes = true) rest)
    (shorter : (words ++ rest).length < depth) :
    Reads (Level.of depth).statement (words ++ rest) rest fun result => result.bare = tree :=
  (line.parses rest closing).down Level.statement (fun _ => rfl) shorter

/-! ### Loops -/

theorem reads_loopBody (body : BodyOf block words tree)
    (closing : Begins (fun token => token.closes = true) rest)
    (shorter : (.symbol .colon :: (closedBody block words ++ rest)).length ≤ depth) :
    Reads (loopBody (Level.of depth)) (.symbol .colon :: (closedBody block words ++ rest)) rest
      fun result => result.1.bare = tree ∧ result.2 = block := by
  unfold loopBody
  apply (reads_expectSymbol .colon _).bind
  intro _ _
  rw [List.length_cons] at shorter
  cases block with
  | true =>
      have spelt : closedBody true words ++ rest =
          .newline :: (words ++ .newline :: .keyword .endWord :: rest) := by
        simp [closedBody]
      rw [spelt] at shorter ⊢
      rw [List.length_cons] at shorter
      apply reads_isBlock
      apply Reads.advance
      apply (BlockOf.reads body rfl (by omega)).register.bind
      intro script same
      apply (reads_expectKeyword .endWord).bind
      intro _ _
      exact reads_pure ⟨same, rfl⟩
  | false =>
      have line : LineOf words tree := body
      apply reads_notBlock (line.opening.append rest)
      apply (line.reads closing shorter).register.bind
      intro script same
      exact reads_pure ⟨same, rfl⟩

theorem parses_whileLoop {testWords : List Token} {condition : Bare}
    (test : Operand testWords condition) (body : BodyOf block words tree)
    (closing : Begins (fun token => token.closes = true) rest) :
    Parses whileLoop
      (.keyword .whileWord :: (testWords ++ .symbol .colon :: (closedBody block words ++ rest)))
      rest fun result => result.bare = .loop () condition tree block := by
  intro depth enough
  have fits := enough
  rw [List.length_cons, List.length_append] at fits
  have colon : Begins (fun token => token.pull = 0)
      (.symbol .colon :: (closedBody block words ++ rest)) := rfl
  unfold whileLoop
  apply (reads_expectKeyword .whileWord).bind
  intro _ _
  apply (test.reads_expr colon enough).register.bind
  intro script same
  apply (reads_loopBody body closing (by omega)).bind
  intro result found
  apply reads_pure
  rw [Tree.bare, same, found.1, found.2]

theorem parses_each (name : String) {valueWords : List Token} {collection : Bare}
    (values : Operand valueWords collection) (body : BlockOf words tree)
    (closing : Begins (fun token => token.closes = true) rest) :
    Parses forLoop
      (.keyword .forWord :: .identifier name :: .keyword .inWord :: (valueWords ++
        .symbol .colon :: (closedBody true words ++ rest)))
      rest fun result => result.bare = .each () name collection tree true := by
  intro depth enough
  have shorter : (valueWords ++ .symbol .colon :: (closedBody true words ++ rest)).length <
      depth := by
    simp only [List.length_cons] at enough
    omega
  have colon : Begins (fun token => token.pull = 0)
      (.symbol .colon :: (closedBody true words ++ rest)) := rfl
  have whole : BodyOf true words tree := body
  unfold forLoop
  apply (reads_expectKeyword .forWord).bind
  intro _ _
  apply (reads_expectName name _).bind
  intro found sameName
  apply Reads.notAtSymbol (by simp [Begins])
  apply Reads.atKeyword
  apply Reads.advance
  apply (values.reads_expr colon shorter).register.bind
  intro script same
  rw [List.length_append] at shorter
  apply (reads_loopBody whole closing (by omega)).bind
  intro result known
  obtain ⟨script, block⟩ := result
  obtain ⟨sameBody, rfl⟩ := known
  apply reads_pure
  rw [Tree.bare, sameName, same, sameBody]

def stepWords : Option (List Token × Bare) → List Token
  | none => []
  | some step => .keyword .stepWord :: step.1

theorem parses_count (name : String) {firstWords limitWords : List Token} {first limit : Bare}
    {step : Option (List Token × Bare)} (firstOperand : Operand firstWords first)
    (limitOperand : Operand limitWords limit) (stepOperand : ∀ part ∈ step, Operand part.1 part.2)
    (body : BodyOf block words tree)
    (closing : Begins (fun token => token.closes = true) rest) :
    Parses forLoop
      (.keyword .forWord :: .identifier name :: .symbol .assign :: (firstWords ++
        .keyword .toWord :: (limitWords ++ (stepWords step ++
          .symbol .colon :: (closedBody block words ++ rest)))))
      rest fun result =>
        result.bare = .count () name first limit (step.map Prod.snd) tree block := by
  intro depth enough
  simp only [List.length_cons, List.length_append] at enough
  have colon : Begins (fun token => token.pull = 0)
      (.symbol .colon :: (closedBody block words ++ rest)) := rfl
  have upTo : Begins (fun token => token.pull = 0)
      (.keyword .toWord :: (limitWords ++ (stepWords step ++
        .symbol .colon :: (closedBody block words ++ rest)))) := rfl
  have afterLimit : Begins (fun token => token.pull = 0)
      (stepWords step ++ .symbol .colon :: (closedBody block words ++ rest)) := by
    cases step with
    | none => exact rfl
    | some step => exact rfl
  unfold forLoop
  apply (reads_expectKeyword .forWord).bind
  intro _ _
  apply (reads_expectName name _).bind
  intro found sameName
  apply Reads.atSymbol
  apply Reads.advance
  apply (firstOperand.reads_expr upTo
    (by simp only [List.length_cons, List.length_append]; omega)).register.bind
  intro firstScript sameFirst
  apply (reads_expectKeyword .toWord).bind
  intro _ _
  apply (limitOperand.reads_expr afterLimit
    (by simp only [List.length_cons, List.length_append]; omega)).register.bind
  intro limitScript sameLimit
  cases step with
  | none =>
      apply Reads.notAtKeyword (by simp [Begins, stepWords])
      apply Reads.pure_bind
      apply (reads_loopBody body closing
        (by simp only [List.length_cons, List.length_append]; omega)).bind
      intro result known
      apply reads_pure
      rw [Tree.bare, sameName, sameFirst, sameLimit, known.1, known.2]
      rfl
  | some step =>
      rw [stepWords, List.length_cons] at enough
      apply Reads.atKeyword
      apply Reads.advance
      apply ((stepOperand step rfl).reads_expr colon
        (by simp only [List.length_cons, List.length_append]; omega)).register.bind
      intro stepScript sameStep
      apply Reads.pure_bind
      apply (reads_loopBody body closing
        (by simp only [List.length_cons, List.length_append]; omega)).bind
      intro result known
      apply reads_pure
      rw [Tree.bare, sameName, sameFirst, sameLimit, Tree.bareOption, sameStep, known.1, known.2]
      rfl

/-! ### Functions -/

def functionTail (yields : Bool) (words : List Token) : List Token :=
  if yields then .symbol .arrow :: words
  else .symbol .leftCurly :: .newline :: (words ++ [.newline, .symbol .rightCurly])

def FunctionBodyOf (yields : Bool) (words : List Token) (tree : Bare) : Prop :=
  if yields then Operand words tree else BlockOf words tree

theorem reads_functionBody {yields : Bool} (body : FunctionBodyOf yields words tree)
    (ended : Begins (fun token => token.pull = 0) rest)
    (fits : (functionTail yields words ++ rest).length ≤ depth) :
    Reads (functionBody (Level.of depth)) (functionTail yields words ++ rest) rest
      fun result => result.1.bare = tree ∧ result.2 = yields := by
  unfold functionBody
  cases yields with
  | true =>
      have operand : Operand words tree := body
      apply Reads.atSymbol
      apply Reads.advance
      apply (operand.reads_expr ended fits).register.bind
      intro script same
      exact reads_pure ⟨same, rfl⟩
  | false =>
      have spelt : functionTail false words ++ rest =
          .symbol .leftCurly :: .newline :: (words ++ .newline :: .symbol .rightCurly :: rest) := by
        simp [functionTail]
      rw [spelt] at fits ⊢
      rw [List.length_cons, List.length_cons] at fits
      apply Reads.notAtSymbol (by simp [Begins])
      apply (reads_expectSymbol .leftCurly _).bind
      intro _ _
      apply reads_isBlock
      apply Reads.advance
      apply (BlockOf.reads body rfl (by omega)).register.bind
      intro script same
      apply (reads_expectSymbol .rightCurly _).bind
      intro _ _
      exact reads_pure ⟨same, rfl⟩

def headWords : Option String → List Token
  | none => []
  | some name => [.identifier name]

theorem reads_functionHead (name : Option String) :
    Reads functionHead (headWords name ++ .symbol .leftParen :: rest) rest
      fun head => head.map Prod.fst = name := by
  unfold functionHead
  cases name with
  | none =>
      apply Reads.current
      intro placed here
      rw [here]
      apply (reads_expectSymbol .leftParen _).bind
      intro _ _
      exact reads_pure rfl
  | some name =>
      apply Reads.current
      intro placed here
      rw [here]
      apply Reads.advance
      apply (reads_expectSymbol .leftParen _).bind
      intro _ _
      exact reads_pure rfl

theorem parses_function (name : Option String) (names : List String)
    {named : List (String × List Token × Bare)} {yields : Bool}
    (namedOperands : NamedOperands named) (body : FunctionBodyOf yields words tree)
    (ended : Begins (fun token => token.pull = 0) rest) :
    Parses functionDefinition
      (.keyword .funcWord :: (headWords name ++ .symbol .leftParen ::
        (argumentWords (nameWords names) named ++ .symbol .rightParen ::
          (functionTail yields words ++ rest))))
      rest fun result => result.bare =
        .function () name names (named.map fun piece => (piece.1, piece.2.2)) tree yields := by
  intro depth enough
  have fits := enough
  rw [List.length_cons, List.length_append, List.length_cons] at fits
  have fitsTail := fits
  rw [List.length_append, List.length_cons] at fitsTail
  unfold functionDefinition
  apply (reads_expectKeyword .funcWord).bind
  intro _ _
  apply (reads_functionHead name).bind
  intro head sameHead
  apply (reads_parameterList namedOperands (by omega)).bind
  intro parameters found
  obtain ⟨placed, optional⟩ := parameters
  obtain ⟨sameNames, sameNamed⟩ := found
  apply (reads_functionBody body ended (by omega)).bind
  intro result known
  apply reads_pure
  rw [Tree.bare, sameNamed, known.1, known.2]
  change Tree.function () (head.map Prod.fst) (placed.map Prod.fst) _ _ _ = _
  rw [sameHead, sameNames]

/-! ### Branches -/

structure Case where
  test : List Token × Bare
  block : Bool
  body : List Token × Bare

def otherwiseWords : Option (Bool × List Token × Bare) → List Token
  | none => []
  | some (block, body) => .keyword .elseWord :: .symbol .colon :: closedBody block body.1

/-- What follows the body of a case: further words, or `end` behind a block that is the last. -/
def concluded (block : Bool) (more : List Token) : List Token :=
  if block && more.isEmpty then [.keyword .endWord] else more

theorem length_le_concluded (block : Bool) (more : List Token) :
    more.length ≤ (concluded block more).length := by
  unfold concluded
  split
  · rename_i empty
    have nothing : more = [] := by
      rw [Bool.and_eq_true] at empty
      exact List.isEmpty_iff.mp empty.2
    rw [nothing]
    exact Nat.zero_le _
  · exact Nat.le_refl _

def openBody (block : Bool) (words : List Token) : List Token :=
  if block then .newline :: (words ++ [.newline]) else words

def caseWords (final : List Token) : Keyword → List Case → List Token
  | _, [] => final
  | word, case :: others =>
      .keyword word :: (case.test.1 ++ .symbol .colon :: (openBody case.block case.body.1 ++
        concluded case.block (caseWords final .elifWord others)))

structure Case.Written (case : Case) : Prop where
  test : Operand case.test.1 case.test.2
  body : BodyOf case.block case.body.1 case.body.2

def Case.bare (case : Case) : Bare × Bare × Bool :=
  (case.test.2, case.body.2, case.block)

theorem reads_otherwise (body : ∀ part ∈ final, BodyOf part.1 part.2.1 part.2.2)
    (ends : Begins (fun token => token.ends = true) rest)
    (fits : (otherwiseWords final ++ rest).length ≤ depth) :
    Reads (otherwise (Level.of depth)) (otherwiseWords final ++ rest) rest
      fun result => Tree.bareOtherwise result = final.map fun part => (part.2.2, part.1) := by
  unfold otherwise
  cases final with
  | none =>
      have noElse : Begins (· ≠ .keyword .elseWord) rest := by
        apply ends.imp
        intro token known same
        rw [same] at known
        cases known
      apply Reads.notAtKeyword noElse
      exact reads_pure rfl
  | some part =>
      obtain ⟨block, words, tree⟩ := part
      have known : BodyOf block words tree := body (block, words, tree) rfl
      have closing : Begins (fun token => token.closes = true) rest :=
        ends.imp fun _ => Token.closes_of_ends
      change Reads _ (.keyword .elseWord :: .symbol .colon :: (closedBody block words ++ rest))
        rest _
      change (Token.keyword .elseWord ::
        .symbol .colon :: (closedBody block words ++ rest)).length ≤ depth at fits
      rw [List.length_cons, List.length_cons] at fits
      apply Reads.atKeyword
      apply Reads.advance
      apply (reads_expectSymbol .colon _).bind
      intro _ _
      cases block with
      | true =>
          have spelt : closedBody true words ++ rest =
              .newline :: (words ++ .newline :: .keyword .endWord :: rest) := by
            simp [closedBody]
          rw [spelt] at fits ⊢
          rw [List.length_cons] at fits
          apply reads_isBlock
          apply Reads.advance
          apply (BlockOf.reads known rfl (by omega)).register.bind
          intro script same
          apply (reads_expectKeyword .endWord).bind
          intro _ _
          apply reads_pure
          rw [Tree.bareOtherwise, same]
          rfl
      | false =>
          have line : LineOf words tree := known
          have shorter : (words ++ rest).length < depth :=
            Nat.lt_of_succ_le (Nat.le_of_succ_le fits)
          apply reads_notBlock (line.opening.append rest)
          apply (line.reads closing shorter).register.bind
          intro script same
          apply reads_pure
          rw [Tree.bareOtherwise, same]
          rfl

def startsCase (token : Token) : Prop :=
  token = .keyword .elifWord ∨ token = .keyword .elseWord

theorem caseWords_eq_nil_or (final : Option (Bool × List Token × Bare)) (others : List Case) :
    caseWords (otherwiseWords final) .elifWord others = [] ∧ others = [] ∧ final = none ∨
      Begins startsCase (caseWords (otherwiseWords final) .elifWord others) := by
  cases others with
  | nil =>
      cases final with
      | none => exact .inl ⟨rfl, rfl, rfl⟩
      | some part => exact .inr (.inr rfl)
  | cons case others => exact .inr (.inl rfl)

def ReadsCases (cases : List Case) (final : Option (Bool × List Token × Bare)) (chain : Cases) :
    Prop :=
  Tree.bareCases chain.1 = cases.map Case.bare ∧
    Tree.bareOtherwise chain.2 = final.map fun part => (part.2.2, part.1)

theorem reads_moreCases {others : List Case}
    (body : ∀ part ∈ final, BodyOf part.1 part.2.1 part.2.2)
    (ends : Begins (fun token => token.ends = true) rest)
    (further : others ≠ [] → Parses (fun level => cases level Keyword.elifWord.spelling)
      (caseWords (otherwiseWords final) .elifWord others ++ rest) rest (ReadsCases others final))
    (shorter : (caseWords (otherwiseWords final) .elifWord others ++ rest).length < depth) :
    Reads (moreCases (Level.of depth)) (caseWords (otherwiseWords final) .elifWord others ++ rest)
      rest (ReadsCases others final) := by
  unfold moreCases
  cases others with
  | nil =>
      have noElif : Begins (· ≠ .keyword .elifWord) (otherwiseWords final ++ rest) := by
        cases final with
        | none =>
            apply ends.imp
            intro token known same
            rw [same] at known
            cases known
        | some part => simp [Begins, otherwiseWords]
      apply Reads.notAtKeyword noElif
      apply (reads_otherwise body ends (Nat.le_of_lt shorter)).register.bind
      intro result same
      exact reads_pure ⟨rfl, same⟩
  | cons next others =>
      apply Reads.atKeyword
      have reads := further (List.cons_ne_nil next others)
      exact (reads.down (fun level => level.cases Keyword.elifWord.spelling) (fun _ => rfl)
        shorter).register

theorem startsCase.plain {token : Token} (starts : startsCase token) :
    token.shuts = true ∧ token.closes = true ∧ token ≠ .keyword .endWord := by
  rcases starts with rfl | rfl
  · exact ⟨rfl, rfl, by simp⟩
  · exact ⟨rfl, rfl, by simp⟩

theorem reads_case {case : Case} {others : List Case} {word : Keyword} {further : List Token}
    (written : case.Written) (ends : Begins (fun token => token.ends = true) rest)
    (kinds : further = [] ∧ others = [] ∧ final = none ∨ Begins startsCase further)
    (more : Reads (moreCases (Level.of depth)) (further ++ rest) rest (ReadsCases others final))
    (fits : (.keyword word :: (case.test.1 ++ .symbol .colon :: (openBody case.block case.body.1 ++
      (concluded case.block further ++ rest)))).length ≤ depth) :
    Reads (cases (Level.of depth) word.spelling)
      (.keyword word :: (case.test.1 ++ .symbol .colon :: (openBody case.block case.body.1 ++
        (concluded case.block further ++ rest))))
      rest (ReadsCases (case :: others) final) := by
  obtain ⟨test, body⟩ := written
  obtain ⟨⟨testWords, testTree⟩, block, bodyWords, bodyTree⟩ := case
  have colon : Begins (fun token => token.pull = 0) (.symbol .colon :: (openBody block bodyWords ++
      (concluded block further ++ rest))) := rfl
  have inside := fits
  rw [List.length_cons, List.length_append, List.length_cons] at inside
  unfold cases
  apply Reads.current
  intro placed here
  rw [here]
  simp only [if_true]
  apply Reads.advance
  apply (test.reads_expr colon fits).register.bind
  intro condition sameTest
  apply (reads_expectSymbol .colon _).bind
  intro _ _
  cases block with
  | false =>
      have line : LineOf bodyWords bodyTree := body
      have closing : Begins (fun token => token.closes = true) (further ++ rest) := by
        rcases kinds with ⟨rfl, _, _⟩ | starts
        · exact ends.imp fun _ => Token.closes_of_ends
        · exact (starts.append rest).imp fun _ known => known.plain.2.1
      have shorter : (bodyWords ++ (further ++ rest)).length < depth := by
        change testWords.length + ((bodyWords ++ (further ++ rest)).length + 1) + 1 ≤
          depth at inside
        omega
      apply reads_notBlock (line.opening.append (further ++ rest))
      apply (line.reads closing shorter).register.bind
      intro script sameBody
      apply more.register.bind
      intro chain found
      apply reads_pure
      exact ⟨by rw [Tree.bareCases, sameTest, sameBody, found.1]; rfl, found.2⟩
  | true =>
      have block : BlockOf bodyWords bodyTree := body
      rcases kinds with ⟨rfl, rfl, rfl⟩ | starts
      · -- The last case, closed by its own word.
        have spelt : openBody true bodyWords ++ (concluded true [] ++ rest) =
            .newline :: (bodyWords ++ .newline :: .keyword .endWord :: rest) := by
          simp [openBody, concluded]
        have shorter : (bodyWords ++ .newline :: .keyword .endWord :: rest).length < depth := by
          change testWords.length +
            ((openBody true bodyWords ++ (concluded true [] ++ rest)).length + 1) + 1 ≤
              depth at inside
          rw [spelt, List.length_cons] at inside
          omega
        rw [spelt]
        apply reads_isBlock
        apply Reads.advance
        apply (block.reads rfl shorter).register.bind
        intro script sameBody
        apply Reads.atKeyword
        apply Reads.advance
        apply reads_pure
        exact ⟨by rw [Tree.bareCases, sameTest, sameBody]; rfl, rfl⟩
      · -- A further case closes the block.
        obtain ⟨token, others', rfl, known⟩ := starts.exists_eq_cons
        obtain ⟨shuts, _, notEnd⟩ := known.plain
        have spelt : openBody true bodyWords ++ (concluded true (token :: others') ++ rest) =
            .newline :: (bodyWords ++ .newline :: token :: (others' ++ rest)) := by
          simp [openBody, concluded]
        have shorter : (bodyWords ++ .newline :: token :: (others' ++ rest)).length < depth := by
          change testWords.length + ((openBody true bodyWords ++
            (concluded true (token :: others') ++ rest)).length + 1) + 1 ≤ depth at inside
          rw [spelt, List.length_cons] at inside
          omega
        rw [spelt]
        apply reads_isBlock
        apply Reads.advance
        apply (block.reads shuts shorter).register.bind
        intro script sameBody
        have away : Begins (· ≠ .keyword .endWord) (token :: (others' ++ rest)) := notEnd
        apply Reads.notAtKeyword away
        apply more.register.bind
        intro chain found
        apply reads_pure
        exact ⟨by rw [Tree.bareCases, sameTest, sameBody, found.1]; rfl, found.2⟩

/-- Cases are read one after another; the last is followed by what holds otherwise. -/
theorem parses_cases (body : ∀ part ∈ final, BodyOf part.1 part.2.1 part.2.2)
    (ends : Begins (fun token => token.ends = true) rest) :
    ∀ (chain : List Case) (word : Keyword), chain ≠ [] → (∀ case ∈ chain, case.Written) →
      Parses (fun level => cases level word.spelling)
        (caseWords (otherwiseWords final) word chain ++ rest) rest (ReadsCases chain final) := by
  intro chain
  induction chain with
  | nil =>
      intro word some
      exact absurd rfl some
  | cons case others ih =>
      intro word _ written depth enough
      have later : ∀ case ∈ others, case.Written :=
        fun other member => written other (List.mem_cons_of_mem case member)
      have spelt : caseWords (otherwiseWords final) word (case :: others) ++ rest =
          .keyword word :: (case.test.1 ++ .symbol .colon :: (openBody case.block case.body.1 ++
            (concluded case.block (caseWords (otherwiseWords final) .elifWord others) ++
              rest))) := by
        rw [caseWords]
        simp only [List.cons_append, List.append_assoc]
      have shorter :
          (caseWords (otherwiseWords final) .elifWord others ++ rest).length < depth := by
        rw [caseWords] at enough
        simp only [List.cons_append, List.length_append, List.length_cons] at enough ⊢
        have kept := length_le_concluded case.block
          (caseWords (otherwiseWords final) .elifWord others)
        omega
      have more := reads_moreCases body ends (fun some => ih .elifWord some later) shorter
      rw [spelt] at enough ⊢
      exact reads_case (written case List.mem_cons_self) ends
        (caseWords_eq_nil_or final others) more enough

theorem parses_branch {chain : List Case} (some : chain ≠ [])
    (written : ∀ case ∈ chain, case.Written)
    (body : ∀ part ∈ final, BodyOf part.1 part.2.1 part.2.2)
    (ends : Begins (fun token => token.ends = true) rest) :
    Parses branch (caseWords (otherwiseWords final) .ifWord chain ++ rest) rest fun result =>
      result.bare = .branch () (chain.map Case.bare)
        (final.map fun part => (part.2.2, part.1)) := by
  intro depth enough
  unfold branch
  apply (parses_cases body ends chain .ifWord some written depth enough).register.bind
  intro found known
  apply reads_pure
  rw [Tree.bare, known.1, known.2]

end Lingo.Grammar
