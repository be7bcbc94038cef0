/-
Two versions of a row of tokens, read side by side by every rule.

Each rule of the grammar agrees in two versions of a row, one lemma per rule.  In front of a body
the versions look at the line end behind the colon or brace and no further; how they agree about
the statements of a body is left open.
-/

import Lingo.Proofs.Grammar.Agreement
import Lingo.Proofs.Grammar.Assembly

namespace Lingo

theorem BinaryOp.token_ne_newline (op : BinaryOp) : op.token ≠ .newline := by
  cases op <;> exact Token.noConfusion

theorem UnaryOp.token_ne_newline (op : UnaryOp) : op.token ≠ .newline := by
  cases op <;> exact Token.noConfusion

namespace Grammar

open Rule Versions

def bareChain (chain : Cases) : List (Bare × Bare × Bool) × Option (Bare × Bool) :=
  (Tree.bareCases chain.1, Tree.bareOtherwise chain.2)

def bareBody (result : Script × Bool) : Bare × Bool :=
  (result.1.bare, result.2)

def barePart (result : String × Script) : String × Bare :=
  (result.1, result.2.bare)

def bareParameters (result : List (String × Placed) × List (String × Script)) :
    List String × List (String × Bare) :=
  (result.1.map Prod.fst, result.2.map barePart)

def bareArguments (result : List Script × List (String × Script)) :
    List Bare × List (String × Bare) :=
  (result.1.map Tree.bare, result.2.map barePart)

/-- The rules of two levels agree.  Only statements may begin behind different numbers of line
ends. -/
structure Versions.Below (pair : Versions) (level otherLevel : Level) : Prop where
  statements : ∀ {place other}, pair.Near place other →
    pair.Agree level.statements otherLevel.statements place other Tree.bare
  statement : ∀ {place other}, pair.Abreast place other →
    pair.Agree level.statement otherLevel.statement place other Tree.bare
  expr : ∀ {place other}, pair.Abreast place other →
    pair.Agree level.expr otherLevel.expr place other Tree.bare
  comparison : ∀ {place other}, pair.Abreast place other →
    pair.Agree level.comparison otherLevel.comparison place other Tree.bare
  factor : ∀ {place other}, pair.Abreast place other →
    pair.Agree level.factor otherLevel.factor place other Tree.bare
  atom : ∀ {place other}, pair.Abreast place other →
    pair.Agree level.atom otherLevel.atom place other Tree.bare
  cases : ∀ (spelling : String) {place other}, pair.Abreast place other →
    pair.Agree (level.cases spelling) (otherLevel.cases spelling) place other bareChain

theorem eq_string_of_bare {tree : Script} {text : String} (same : tree.bare = .string () text) :
    ∃ place, tree = .string place text := by
  cases tree with
  | string place written =>
      rw [Tree.bare] at same
      cases same
      exact ⟨place, rfl⟩
  | _ =>
      simp only [Tree.bare] at same
      cases same

variable {pair : Versions} {level otherLevel : Level} {place other : Nat}

section

variable (below : pair.Below level otherLevel) (abreast : pair.Abreast place other)

include below abreast

/-! ### Literals -/

theorem agree_listLiteral :
    pair.Agree (listLiteral level) (listLiteral otherLevel) place other Tree.bare := by
  refine Agree.anyCurrent fun _ _ => (agree_expectSymbol abreast _ _).bind ?_
  intro _ _ _ _ _ opened
  refine Agree.ifSymbol opened (fun closed => ?_) ?_
  · exact Agree.pure_bind (Agree.anyCurrent fun _ _ => agree_pure closed rfl)
  · refine ((below.expr opened).registerOr _).bind ?_
    intro first otherFirst _ _ same firstRead
    refine (agree_afterCommas firstRead fun _ _ onward => (below.expr onward).register).bind ?_
    intro others otherOthers _ _ alike othersRead
    refine (agree_expectSymbol othersRead _ _).bind ?_
    intro _ _ _ _ _ closed
    refine Agree.pure_bind (Agree.anyCurrent fun _ _ => agree_pure closed ?_)
    simp only [Tree.bare, Tree.bareAll_eq_map, List.map_cons, same, alike]

theorem agree_dictEntry :
    pair.Agree (dictEntry level) (dictEntry otherLevel) place other bareEntry := by
  refine ((below.expr abreast).registerOr _).bind ?_
  intro key otherKey _ _ same keyRead
  split
  case h_1 place text =>
      obtain ⟨otherPlace, rfl⟩ := eq_string_of_bare (same.symm.trans (by rw [Tree.bare]))
      refine (agree_expectSymbol keyRead _ _).bind ?_
      intro _ _ _ _ _ colonRead
      refine ((below.expr colonRead).registerOr _).bind ?_
      intro value otherValue _ _ alike valueRead
      refine agree_pure valueRead ?_
      simp only [bareEntry, alike]
  case h_2 noText =>
      split
      case h_1 place text =>
          obtain ⟨otherPlace, rfl⟩ := eq_string_of_bare (same.trans (by rw [Tree.bare]))
          exact absurd rfl (noText otherPlace text)
      case h_2 => exact agree_fail

theorem agree_dictLiteral :
    pair.Agree (dictLiteral level) (dictLiteral otherLevel) place other Tree.bare := by
  refine Agree.anyCurrent fun _ _ => (agree_expectSymbol abreast _ _).bind ?_
  intro _ _ _ _ _ opened
  refine Agree.ifSymbol opened (fun closed => ?_) ?_
  · exact Agree.pure_bind (Agree.anyCurrent fun _ _ => agree_pure closed rfl)
  · refine (agree_dictEntry below opened).bind ?_
    intro first otherFirst _ _ same firstRead
    refine (agree_afterCommas firstRead fun _ _ onward => agree_dictEntry below onward).bind ?_
    intro others otherOthers _ _ alike othersRead
    refine (agree_expectSymbol othersRead _ _).bind ?_
    intro _ _ _ _ _ closed
    refine Agree.pure_bind (Agree.anyCurrent fun _ _ => agree_pure closed ?_)
    have kept : ∀ entry : (Span × String) × Script,
        Tree.bareEntries [entry] = Phrase.keepLast [bareEntry entry] :=
      fun entry => (Phrase.keepLast_single (bareEntry entry)).symm
    rw [Tree.bare, Tree.bare, bareEntries_foldl_addEntry others (kept first),
      bareEntries_foldl_addEntry otherOthers (kept otherFirst), same, alike]

/-! ### Branches and loops -/

theorem agree_body {α γ : Type} (make : Script → Bool → α) {view : α → γ}
    (respects : ∀ {body otherBody : Script} (block : Bool), body.bare = otherBody.bare →
      view (make body block) = view (make otherBody block))
    :
    pair.Agree
      (do
        expectSymbol .colon .colon
        if ← isBlock then
          advance
          let body ← register level.statements
          expectKeyword .endWord
          return make body true
        else
          let body ← register level.statement
          return make body false)
      (do
        expectSymbol .colon .colon
        if ← isBlock then
          advance
          let body ← register otherLevel.statements
          expectKeyword .endWord
          return make body true
        else
          let body ← register otherLevel.statement
          return make body false) place other view := by
  refine Agree.opening (.inl rfl) abreast (fun lineRead => ?_) fun colonRead => ?_
  · refine Agree.pass ((below.statements lineRead).register.bind ?_)
    intro body otherBody _ _ same bodyRead
    refine (agree_expectKeyword bodyRead _).bind ?_
    intro _ _ _ _ _ ended
    exact agree_pure ended (respects true same)
  · refine (below.statement colonRead).register.bind ?_
    intro body otherBody _ _ same bodyRead
    exact agree_pure bodyRead (respects false same)

theorem agree_loopBody :
    pair.Agree (loopBody level) (loopBody otherLevel) place other bareBody :=
  agree_body below abreast Prod.mk fun _ same => congrArg (Prod.mk · _) same

theorem agree_otherwise :
    pair.Agree (otherwise level) (otherwise otherLevel) place other Tree.bareOtherwise := by
  refine Agree.ifKeyword abreast (fun onward => ?_) (agree_pure abreast rfl)
  refine agree_body below onward (fun body block => some (body, block)) ?_
  intro body otherBody block same
  simp only [Tree.bareOtherwise, same]

theorem agree_moreCases :
    pair.Agree (moreCases level) (moreCases otherLevel) place other bareChain := by
  refine Agree.atKeyword abreast (fun _ => (below.cases _ abreast).register) ?_
  refine (agree_otherwise below abreast).register.bind ?_
  intro final otherFinal _ _ same finalRead
  refine agree_pure finalRead ?_
  simp only [bareChain, same]

theorem agree_cases (spelling : String) :
    pair.Agree (cases level spelling) (cases otherLevel spelling) place other bareChain := by
  unfold cases
  refine Agree.current abreast (fun _ _ _ _ => agree_fail_bind) ?_
  intro token _ _ _ _ here
  cases token with
  | keyword word =>
      by_cases spelled : word.spelling = spelling
      · simp only [if_pos spelled]
        refine Agree.advance abreast here Token.noConfusion Token.noConfusion fun wordRead => ?_
        refine (below.expr wordRead).register.bind ?_
        intro condition otherCondition _ _ sameCondition conditionRead
        refine Agree.opening (.inl rfl) conditionRead (fun lineRead => ?_) fun colonRead => ?_
        · refine Agree.pass ((below.statements lineRead).register.bind ?_)
          intro body otherBody _ _ sameBody bodyRead
          refine Agree.ifKeyword bodyRead (fun ended => agree_pure ended ?_) ?_
          · simp only [bareChain, Tree.bareCases, sameCondition, sameBody]
          · refine (agree_moreCases below bodyRead).register.bind ?_
            intro chain otherChain _ _ sameChain chainRead
            refine agree_pure chainRead ?_
            simp only [bareChain, Prod.mk.injEq] at sameChain
            simp only [bareChain, Tree.bareCases, sameCondition, sameBody, sameChain]
        · refine (below.statement colonRead).register.bind ?_
          intro body otherBody _ _ sameBody bodyRead
          refine (agree_moreCases below bodyRead).register.bind ?_
          intro chain otherChain _ _ sameChain chainRead
          refine agree_pure chainRead ?_
          simp only [bareChain, Prod.mk.injEq] at sameChain
          simp only [bareChain, Tree.bareCases, sameCondition, sameBody, sameChain]
      · simp only [if_neg spelled]
        exact agree_fail_bind
  | _ => exact agree_fail_bind

theorem agree_branch :
    pair.Agree (branch level) (branch otherLevel) place other Tree.bare := by
  refine (agree_cases below abreast _).register.bind ?_
  intro chain otherChain _ _ same chainRead
  refine agree_pure chainRead ?_
  simp only [bareChain, Prod.mk.injEq] at same
  simp only [Tree.bare, same]

theorem agree_forLoop :
    pair.Agree (forLoop level) (forLoop otherLevel) place other Tree.bare := by
  unfold forLoop
  refine (agree_expectKeyword abreast _).bind ?_
  intro _ _ _ _ _ wordRead
  refine (agree_expectName wordRead _).bind ?_
  rintro ⟨name, placed⟩ ⟨otherName, otherPlaced⟩ _ _ sameName nameRead
  cases sameName
  refine Agree.ifSymbol nameRead (fun assignRead => ?_) ?_
  · refine (below.expr assignRead).register.bind ?_
    intro first otherFirst _ _ sameFirst firstRead
    refine (agree_expectKeyword firstRead _).bind ?_
    intro _ _ _ _ _ toRead
    refine (below.expr toRead).register.bind ?_
    intro limit otherLimit _ _ sameLimit limitRead
    refine Agree.ifKeyword limitRead (fun stepRead => ?_) ?_
    · refine (below.expr stepRead).register.bind ?_
      intro step otherStep _ _ sameStep strideRead
      refine Agree.pure_bind ((agree_loopBody below strideRead).bind ?_)
      rintro ⟨body, block⟩ ⟨otherBody, otherBlock⟩ _ _ sameBody bodyRead
      refine agree_pure bodyRead ?_
      simp only [bareBody, Prod.mk.injEq] at sameBody
      simp only [Tree.bare, Tree.bareOption, sameFirst, sameLimit, sameStep, sameBody]
    · refine Agree.pure_bind ((agree_loopBody below limitRead).bind ?_)
      rintro ⟨body, block⟩ ⟨otherBody, otherBlock⟩ _ _ sameBody bodyRead
      refine agree_pure bodyRead ?_
      simp only [bareBody, Prod.mk.injEq] at sameBody
      simp only [Tree.bare, Tree.bareOption, sameFirst, sameLimit, sameBody]
  · refine Agree.ifKeyword nameRead (fun inRead => ?_) agree_fail
    refine (below.expr inRead).register.bind ?_
    intro collection otherCollection _ _ sameCollection collectionRead
    refine (agree_loopBody below collectionRead).bind ?_
    rintro ⟨body, block⟩ ⟨otherBody, otherBlock⟩ _ _ sameBody bodyRead
    simp only [bareBody, Prod.mk.injEq] at sameBody
    obtain ⟨sameBody, rfl⟩ := sameBody
    cases block with
    | true =>
        refine agree_pure bodyRead ?_
        simp only [Tree.bare, sameCollection, sameBody]
    | false => exact agree_crash _

theorem agree_whileLoop :
    pair.Agree (whileLoop level) (whileLoop otherLevel) place other Tree.bare := by
  unfold whileLoop
  refine (agree_expectKeyword abreast _).bind ?_
  intro _ _ _ _ _ wordRead
  refine (below.expr wordRead).register.bind ?_
  intro condition otherCondition _ _ sameCondition conditionRead
  refine (agree_loopBody below conditionRead).bind ?_
  rintro ⟨body, block⟩ ⟨otherBody, otherBlock⟩ _ _ sameBody bodyRead
  refine agree_pure bodyRead ?_
  simp only [bareBody, Prod.mk.injEq] at sameBody
  simp only [Tree.bare, sameCondition, sameBody]

/-! ### Functions and calls -/

theorem agree_optionalPart :
    pair.Agree (optionalPart level) (optionalPart otherLevel) place other barePart := by
  unfold optionalPart
  refine (agree_expectName abreast _).bind ?_
  rintro ⟨name, placed⟩ ⟨otherName, otherPlaced⟩ _ _ sameName nameRead
  refine (agree_expectSymbol nameRead _ _).bind ?_
  intro _ _ _ _ _ assignRead
  refine (below.atom assignRead).register.bind ?_
  intro value otherValue _ _ sameValue valueRead
  exact agree_pure valueRead (congrArg₂ Prod.mk sameName sameValue)

theorem agree_parameters :
    pair.Agree (parameters level) (parameters otherLevel) place other bareParameters := by
  unfold parameters
  refine (agree_expectName abreast _).bind ?_
  intro first otherFirst _ _ sameFirst firstRead
  refine (agree_afterCommas firstRead fun _ _ onward => agree_expectName onward _).bind ?_
  intro others otherOthers _ _ sameOthers othersRead
  have names : (first :: others).map Prod.fst = (otherFirst :: otherOthers).map Prod.fst := by
    rw [List.map_cons, List.map_cons, sameFirst, sameOthers]
  refine Agree.ifSymbol othersRead (fun assignRead => ?_) (agree_pure othersRead ?_)
  · refine (below.atom assignRead).register.bind ?_
    intro value otherValue _ _ sameValue valueRead
    refine (agree_afterCommas valueRead fun _ _ onward => agree_optionalPart below onward).bind ?_
    intro more otherMore _ _ sameMore moreRead
    refine agree_pure moreRead ?_
    have last : ((first :: others).getLast?.getD first).1 =
        ((otherFirst :: otherOthers).getLast?.getD otherFirst).1 := by
      rw [← Option.getD_map Prod.fst, ← Option.getD_map Prod.fst, ← List.getLast?_map,
        ← List.getLast?_map, names, sameFirst]
    simp only [bareParameters, List.map_dropLast, names, List.map_cons, sameMore, barePart, last,
      sameValue]
  · exact congrArg (Prod.mk · []) names

omit below in
theorem agree_lone {α γ : Type} {view : α → γ} (symbol : Symbol)
    (expected : Expectation) (result : α) :
    pair.Agree (do expectSymbol symbol expected; return result)
      (do expectSymbol symbol expected; return result) place other view := by
  refine (agree_expectSymbol abreast _ _).bind ?_
  intro _ _ _ _ _ passed
  exact agree_pure passed rfl

theorem agree_parameterList :
    pair.Agree (parameterList level) (parameterList otherLevel) place other bareParameters := by
  unfold parameterList
  refine Agree.current abreast (fun _ _ _ _ => agree_lone abreast _ _ _) ?_
  intro token _ _ _ _ _
  cases token with
  | identifier name =>
      refine (agree_parameters below abreast).bind ?_
      intro names otherNames _ _ same namesRead
      refine (agree_expectSymbol namesRead _ _).bind ?_
      intro _ _ _ _ _ closed
      exact agree_pure closed same
  | _ => exact agree_lone abreast _ _ _

omit below in
theorem agree_functionHead :
    pair.Agree functionHead functionHead place other (Option.map Prod.fst) := by
  unfold functionHead
  refine Agree.current abreast (fun _ _ _ _ => agree_lone abreast _ _ _) ?_
  intro token _ _ _ _ here
  cases token with
  | identifier name =>
      refine Agree.advance abreast here Token.noConfusion Token.noConfusion fun nameRead => ?_
      refine (agree_expectSymbol nameRead _ _).bind ?_
      intro _ _ _ _ _ opened
      exact agree_pure opened rfl
  | _ => exact agree_lone abreast _ _ _

theorem agree_functionBody :
    pair.Agree (functionBody level) (functionBody otherLevel) place other bareBody := by
  unfold functionBody
  refine Agree.ifSymbol abreast (fun arrowRead => ?_) ?_
  · refine (below.expr arrowRead).register.bind ?_
    intro body otherBody _ _ same bodyRead
    exact agree_pure bodyRead (congrArg (Prod.mk · true) same)
  · refine Agree.opening (.inr rfl) abreast (fun lineRead => ?_) fun _ => agree_fail_bind
    refine Agree.pass ((below.statements lineRead).register.bind ?_)
    intro body otherBody _ _ same bodyRead
    refine (agree_expectSymbol bodyRead _ _).bind ?_
    intro _ _ _ _ _ closed
    exact agree_pure closed (congrArg (Prod.mk · false) same)

theorem agree_functionDefinition :
    pair.Agree (functionDefinition level) (functionDefinition otherLevel) place other
      Tree.bare := by
  unfold functionDefinition
  refine (agree_expectKeyword abreast _).bind ?_
  intro _ _ _ _ _ wordRead
  refine (agree_functionHead wordRead).bind ?_
  intro head otherHead _ _ sameHead headRead
  refine (agree_parameterList below headRead).bind ?_
  rintro ⟨names, optional⟩ ⟨otherNames, otherOptional⟩ _ _ sameNames namesRead
  refine (agree_functionBody below namesRead).bind ?_
  rintro ⟨body, yields⟩ ⟨otherBody, otherYields⟩ _ _ sameBody bodyRead
  refine agree_pure bodyRead ?_
  simp only [bareParameters, Prod.mk.injEq] at sameNames
  simp only [bareBody, Prod.mk.injEq] at sameBody
  obtain ⟨sameNames, sameOptional⟩ := sameNames
  have named : Tree.bareNamed optional = Tree.bareNamed otherOptional := by
    rw [Tree.bareNamed_eq_map, Tree.bareNamed_eq_map]
    exact sameOptional
  simp only [Tree.bare, named, sameBody]
  rw [show head.map (fun item => item.1) = _ from sameHead,
    show names.map (fun item => item.1) = _ from sameNames]

theorem agree_arguments :
    pair.Agree (arguments level) (arguments otherLevel) place other bareArguments := by
  unfold arguments
  refine ((below.expr abreast).registerOr _).bind ?_
  intro first otherFirst _ _ sameFirst firstRead
  refine (agree_afterCommas firstRead fun _ _ onward => (below.expr onward).register).bind ?_
  intro others otherOthers _ _ sameOthers othersRead
  have values : (first :: others).map Tree.bare = (otherFirst :: otherOthers).map Tree.bare := by
    rw [List.map_cons, List.map_cons, sameFirst, sameOthers]
  have last : (first :: others).getLast?.map Tree.bare =
      (otherFirst :: otherOthers).getLast?.map Tree.bare := by
    rw [← List.getLast?_map, ← List.getLast?_map, values]
  refine Agree.atSymbol othersRead (fun here => ?_)
    (agree_pure othersRead (congrArg (Prod.mk · []) values))
  simp only [↓reduceIte]
  split
  case h_1 place name owner found =>
      rw [found, Option.map_some, Tree.bare] at last
      obtain ⟨tree, otherFound, sameLast⟩ := Option.map_eq_some_iff.mp last.symm
      obtain ⟨otherPlace, rfl⟩ := eq_access_of_bare sameLast
      rw [otherFound]
      refine Agree.advance othersRead here Token.noConfusion Token.noConfusion fun assignRead => ?_
      refine ((below.expr assignRead).registerOr _).bind ?_
      intro value otherValue _ _ sameValue valueRead
      refine (agree_afterCommas valueRead fun _ _ onward => agree_optionalPart below onward).bind ?_
      intro more otherMore _ _ sameMore moreRead
      refine agree_pure moreRead ?_
      simp only [bareArguments, List.map_dropLast, values, List.map_cons, sameMore, barePart,
        sameValue]
  case h_2 noName =>
      split
      case h_1 place name owner found =>
          rw [found, Option.map_some, Tree.bare] at last
          obtain ⟨tree, otherFound, sameLast⟩ := Option.map_eq_some_iff.mp last
          obtain ⟨otherPlace, rfl⟩ := eq_access_of_bare sameLast
          exact absurd otherFound (noName otherPlace name owner)
      case h_2 => exact agree_fail

/-! ### Expressions -/

omit below in
theorem agree_nameAccess (name : String) {placed otherPlaced : Placed}
    (here : (tokenAt pair.tokens place).token = .identifier name) :
    pair.Agree (nameAccess name placed) (nameAccess name otherPlaced) place other Tree.bare := by
  unfold nameAccess
  refine Agree.advance abreast here Token.noConfusion Token.noConfusion fun nameRead => ?_
  refine Agree.ifSymbol nameRead (fun dotRead => ?_) (agree_pure nameRead rfl)
  refine (agree_expectName dotRead _).bind ?_
  rintro ⟨member, memberPlaced⟩ ⟨otherMember, otherMemberPlaced⟩ _ _ same memberRead
  cases same
  exact agree_pure memberRead rfl

theorem agree_atom :
    pair.Agree (atom level) (atom otherLevel) place other Tree.bare := by
  unfold atom
  refine Agree.current abreast (fun _ _ _ _ => agree_fail) ?_
  intro token _ _ _ _ here
  cases token with
  | int n =>
      exact Agree.advance abreast here Token.noConfusion Token.noConfusion
        fun onward => agree_pure onward rfl
  | float x =>
      exact Agree.advance abreast here Token.noConfusion Token.noConfusion
        fun onward => agree_pure onward rfl
  | string text =>
      exact Agree.advance abreast here Token.noConfusion Token.noConfusion
        fun onward => agree_pure onward rfl
  | identifier name => exact agree_nameAccess abreast name here
  | symbol symbol =>
      cases symbol with
      | leftParen =>
          refine Agree.advance abreast here Token.noConfusion Token.noConfusion fun opened => ?_
          refine (below.expr opened).register.bind ?_
          intro inner otherInner _ _ same innerRead
          refine (agree_expectSymbol innerRead _ _).bind ?_
          intro _ _ _ _ _ closed
          exact agree_pure closed same
      | leftSquare => exact (agree_listLiteral below abreast).register
      | leftCurly => exact (agree_dictLiteral below abreast).register
      | _ => exact agree_fail
  | keyword word =>
      cases word with
      | ifWord => exact (agree_branch below abreast).register
      | forWord => exact (agree_forLoop below abreast).register
      | whileWord => exact (agree_whileLoop below abreast).register
      | funcWord => exact (agree_functionDefinition below abreast).register
      | _ => exact agree_fail
  | newline => exact agree_fail
  | eof => exact agree_fail

theorem agree_call :
    pair.Agree (call level) (call otherLevel) place other Tree.bare := by
  unfold call
  refine (agree_atom below abreast).register.bind ?_
  intro callee otherCallee _ _ sameCallee calleeRead
  refine Agree.ifSymbol calleeRead (fun opened => ?_) (agree_pure calleeRead sameCallee)
  refine Agree.ifSymbol opened (fun closed => ?_) ?_
  · refine Agree.pure_bind (agree_pure closed ?_)
    simp only [Tree.bare, sameCallee]
  · refine (agree_arguments below opened).bind ?_
    rintro ⟨positional, optional⟩ ⟨otherPositional, otherOptional⟩ _ _ same argumentsRead
    refine (agree_expectSymbol argumentsRead _ _).bind ?_
    intro _ _ _ _ _ closed
    refine Agree.pure_bind (agree_pure closed ?_)
    simp only [bareArguments, Prod.mk.injEq] at same
    obtain ⟨samePositional, sameOptional⟩ := same
    have named : Tree.bareNamed optional = Tree.bareNamed otherOptional := by
      rw [Tree.bareNamed_eq_map, Tree.bareNamed_eq_map]
      exact sameOptional
    simp only [Tree.bare, Tree.bareAll_eq_map, sameCallee, samePositional, named]

end

section

variable {operator? : Token → Option BinaryOp} {first otherFirst right otherRight : Rule Script}

theorem agree_joinFrom (sees : ∀ {token op}, operator? token = some op → token = op.token)
    (each : ∀ {place other}, pair.Abreast place other →
      pair.Agree right otherRight place other Tree.bare) :
    ∀ (fuel otherFuel : Nat) (left otherLeft : Script) (place other : Nat),
      left.bare = otherLeft.bare → pair.Abreast place other →
      pair.Agree (joinFrom operator? right fuel left) (joinFrom operator? otherRight otherFuel
        otherLeft) place other Tree.bare := by
  intro fuel
  induction fuel with
  | zero => exact fun _ _ _ _ _ _ _ _ _ => .tooDeep
  | succ fuel ih =>
      intro otherFuel left otherLeft place other same abreast
      cases otherFuel with
      | zero => exact fun _ _ => .otherTooDeep
      | succ otherFuel =>
          unfold joinFrom
          refine Agree.current abreast (fun _ _ _ _ => ?_) ?_
          · have unseen {token : Token} (strange : ∀ op : BinaryOp, op.token ≠ token) :
                operator? token = none :=
              Option.eq_none_iff_forall_ne_some.mpr fun op found => strange op (sees found).symm
            simp only [unseen BinaryOp.token_ne_eof, unseen BinaryOp.token_ne_newline]
            exact agree_pure abreast same
          intro token _ _ _ _ here
          cases found : operator? token with
          | none => exact agree_pure abreast same
          | some op =>
              rw [sees found] at here
              refine Agree.advance abreast here op.token_ne_eof op.token_ne_newline
                fun onward => ?_
              refine (each onward).register.bind ?_
              intro operand otherOperand _ _ sameOperand operandRead
              refine ih otherFuel _ _ _ _ ?_ operandRead
              simp only [Tree.bare, same, sameOperand]

theorem agree_joined (sees : ∀ {token op}, operator? token = some op → token = op.token)
    (one : pair.Agree first otherFirst place other Tree.bare)
    (each : ∀ {place other}, pair.Abreast place other →
      pair.Agree right otherRight place other Tree.bare) :
    pair.Agree (joined operator? first right) (joined operator? otherFirst otherRight) place other
      Tree.bare := by
  refine one.register.bind ?_
  intro left otherLeft _ _ same leftRead
  exact Agree.remaining fun fuel otherFuel =>
    agree_joinFrom sees each fuel otherFuel _ _ _ _ same leftRead

end

theorem agree_prefixed (op : UnaryOp) {operand otherOperand : Rule Script} {token : Token}
    (here : (tokenAt pair.tokens place).token = token) (ordinary : token = op.token)
    (each : ∀ {place other}, pair.Abreast place other →
      pair.Agree operand otherOperand place other Tree.bare)
    (abreast : pair.Abreast place other) :
    pair.Agree (prefixed op operand) (prefixed op otherOperand) place other Tree.bare := by
  subst ordinary
  refine Agree.anyCurrent fun _ _ => ?_
  refine Agree.advance abreast here op.token_ne_eof op.token_ne_newline fun onward => ?_
  refine (each onward).register.bind ?_
  intro inner otherInner _ _ same innerRead
  refine agree_pure innerRead ?_
  simp only [Tree.bare, same]

section

variable (below : pair.Below level otherLevel) (abreast : pair.Abreast place other)

include below abreast

theorem agree_power : pair.Agree (power level) (power otherLevel) place other Tree.bare :=
  agree_joined (fun found => (powerOperator?_some found).2) (agree_call below abreast) below.factor

theorem agree_factor : pair.Agree (factor level) (factor otherLevel) place other Tree.bare := by
  unfold factor
  refine Agree.current abreast (fun _ _ _ _ => agree_power below abreast) ?_
  intro token _ _ _ _ here
  cases found : signOperator? token with
  | none => exact agree_power below abreast
  | some op => exact agree_prefixed op here (signOperator?_some found).2 below.factor abreast

theorem agree_product : pair.Agree (product level) (product otherLevel) place other Tree.bare :=
  agree_joined (fun found => (productOperator?_some found).2) (agree_factor below abreast)
    (agree_factor below)

theorem agree_sum : pair.Agree (sum level) (sum otherLevel) place other Tree.bare :=
  agree_joined (fun found => (sumOperator?_some found).2) (agree_product below abreast)
    (agree_product below)

theorem agree_comparison :
    pair.Agree (comparison level) (comparison otherLevel) place other Tree.bare :=
  Agree.atKeyword abreast
    (fun here => agree_prefixed .negation here rfl below.comparison abreast)
    ((agree_joined (fun found => (comparisonOperator?_some found).2) (agree_sum below abreast)
      (agree_sum below)).registerOr _)

theorem agree_expr : pair.Agree (expr level) (expr otherLevel) place other Tree.bare := by
  refine Agree.ifKeyword abreast (fun wordRead => ?_) ?_
  · refine (agree_expectName wordRead _).bind ?_
    rintro ⟨name, placed⟩ ⟨otherName, otherPlaced⟩ _ _ sameName nameRead
    cases sameName
    refine (agree_expectSymbol nameRead _ _).bind ?_
    intro _ _ _ _ _ assignRead
    refine (below.expr assignRead).register.bind ?_
    intro value otherValue _ _ sameValue valueRead
    refine agree_pure valueRead ?_
    simp only [Tree.bare, sameValue]
  · exact (agree_joined (fun found => (logicOperator?_some found).2)
      (agree_comparison below abreast) (agree_comparison below)).registerOr _

end

/-! ### Statements -/

/-- What is tried behind a return is given back in both versions if it is not there. -/
theorem agree_statement {depth otherDepth : Nat}
    (below : pair.Below (Level.of depth) (Level.of otherDepth))
    (abreast : pair.Abreast place other) :
    pair.Agree (statement (Level.of depth)) (statement (Level.of otherDepth)) place other
      Tree.bare := by
  refine Agree.anyCurrent fun _ _ => ?_
  refine Agree.ifKeyword abreast (fun wordRead => ?_) ?_
  · have tried := (agree_expr below wordRead).attempt wordRead
      (IsRule.expr.keeps pair.ends depth (pair.within wordRead))
      (IsRule.expr.keeps pair.otherEnds otherDepth (pair.otherWithin wordRead))
    refine tried.bind ?_
    intro value otherValue _ _ same valueRead
    refine Agree.anyCurrent fun _ _ => agree_pure valueRead ?_
    cases value with
    | none =>
        cases otherValue with
        | none => rfl
        | some otherValue => cases same
    | some value =>
        cases otherValue with
        | none => cases same
        | some otherValue => simp only [Tree.bare, Tree.bareOption, Option.some.inj same]
  · refine Agree.ifKeyword abreast
      (fun onward => Agree.anyCurrent fun _ _ => agree_pure onward rfl) ?_
    refine Agree.ifKeyword abreast
      (fun onward => Agree.anyCurrent fun _ _ => agree_pure onward rfl) ?_
    exact (agree_expr below abreast).registerOr _

/-- The rules of any two levels agree if statements do: from one level to the next, rule by rule. -/
theorem below_of_levels
    (step : ∀ {depth otherDepth place other}, pair.Below (Level.of depth) (Level.of otherDepth) →
      pair.Near place other → pair.Agree (statements (Level.of depth))
        (statements (Level.of otherDepth)) place other Tree.bare) (depth otherDepth : Nat) :
    pair.Below (Level.of depth) (Level.of otherDepth) := by
  induction depth generalizing otherDepth with
  | zero =>
      exact
        { statements := fun _ _ _ => .tooDeep
          statement := fun _ _ _ => .tooDeep
          expr := fun _ _ _ => .tooDeep
          comparison := fun _ _ _ => .tooDeep
          factor := fun _ _ _ => .tooDeep
          atom := fun _ _ _ => .tooDeep
          cases := fun _ _ _ _ _ _ => .tooDeep }
  | succ depth ih =>
      cases otherDepth with
      | zero =>
          exact
            { statements := fun _ _ _ => .otherTooDeep
              statement := fun _ _ _ => .otherTooDeep
              expr := fun _ _ _ => .otherTooDeep
              comparison := fun _ _ _ => .otherTooDeep
              factor := fun _ _ _ => .otherTooDeep
              atom := fun _ _ _ => .otherTooDeep
              cases := fun _ _ _ _ _ _ => .otherTooDeep }
      | succ otherDepth =>
          have below := ih otherDepth
          exact
            { statements := step below
              statement := agree_statement below
              expr := agree_expr below
              comparison := agree_comparison below
              factor := agree_factor below
              atom := agree_atom below
              cases := fun spelling _ _ abreast => agree_cases below abreast spelling }

end Grammar

end Lingo
