/-
The grammar of scripts.

    statements  line ends, a statement, and more statements behind line ends
    statement   return expr?, continue, break, or an expr
    expr        var name = expr, or comparisons joined by and / or
    comparison  not comparison, or sums joined by == != < > <= >=
    sum         products joined by + -
    product     factors joined by * / // %
    factor      + factor, - factor, or a power
    power       calls joined by ^ with a factor on the right
    call        an atom, perhaps with arguments in parentheses
    atom        a literal, a name, or a bracketed or keyword construct

Rules that contain themselves do so through a level: the rules of level `n + 1` are
built from those of level `n`, and each step down happens behind a token, so that the
number of tokens bounds the levels that a text can need.
-/

import Lingo.Syntax.Rule

namespace Lingo

abbrev Script := Tree Span

abbrev Cases := List (Script × Script × Bool) × Option (Script × Bool)

namespace Grammar

open Rule

structure Level where
  statements : Rule Script
  statement : Rule Script
  expr : Rule Script
  comparison : Rule Script
  factor : Rule Script
  atom : Rule Script
  cases : String → Rule Cases

def Level.ground : Level :=
  { statements := crash .tooDeep
    statement := crash .tooDeep
    expr := crash .tooDeep
    comparison := crash .tooDeep
    factor := crash .tooDeep
    atom := crash .tooDeep
    cases := fun _ => crash .tooDeep }

/-! ### Literals -/

def listLiteral (level : Level) : Rule Script := do
  let start := (← current).start
  expectSymbol .leftSquare .openSquare
  let items ←
    if ← atSymbol .rightSquare then
      advance
      pure []
    else
      let first ← registerOr .element level.expr
      let others ← afterCommas (register level.expr)
      expectSymbol .rightSquare .commaOrSquare
      pure (first :: others)
  return .list { start, stop := (← current).stop } items

def dictEntry (level : Level) : Rule ((Span × String) × Script) := do
  match ← registerOr .key level.expr with
  | .string place key =>
      expectSymbol .colon .colon
      let value ← registerOr .entryValue level.expr
      return ((place, key), value)
  | _ => fail .key

def addEntry (entries : List ((Span × String) × Script)) (entry : (Span × String) × Script) :
    List ((Span × String) × Script) :=
  if entries.any (·.1.2 == entry.1.2) then
    entries.map fun known => if known.1.2 == entry.1.2 then (known.1, entry.2) else known
  else entries ++ [entry]

def dictLiteral (level : Level) : Rule Script := do
  let start := (← current).start
  expectSymbol .leftCurly .openCurly
  let entries ←
    if ← atSymbol .rightCurly then
      advance
      pure []
    else
      let first ← dictEntry level
      let others ← afterCommas (dictEntry level)
      expectSymbol .rightCurly .commaOrCurly
      pure (others.foldl addEntry [first])
  return .dict { start, stop := (← current).stop } entries

/-! ### Branches -/

def isBlock : Rule Bool := do
  return (← current).token.isNewline

def otherwise (level : Level) : Rule (Option (Script × Bool)) := do
  if ← atKeyword .elseWord then
    advance
    expectSymbol .colon .colon
    if ← isBlock then
      advance
      let body ← register level.statements
      expectKeyword .endWord
      return some (body, true)
    else
      let body ← register level.statement
      return some (body, false)
  else return none

def moreCases (level : Level) : Rule Cases := do
  if ← atKeyword .elifWord then register (level.cases Keyword.elifWord.spelling)
  else return ([], ← register (otherwise level))

def cases (level : Level) (spelling : String) : Rule Cases := do
  match (← current).token with
  | .keyword word => if word.spelling = spelling then advance else fail (.keyword spelling)
  | _ => fail (.keyword spelling)
  let condition ← register level.expr
  expectSymbol .colon .colon
  if ← isBlock then
    advance
    let body ← register level.statements
    if ← atKeyword .endWord then
      advance
      return ([(condition, body, true)], none)
    else
      let (more, other) ← register (moreCases level)
      return ((condition, body, true) :: more, other)
  else
    let body ← register level.statement
    let (more, other) ← register (moreCases level)
    return ((condition, body, false) :: more, other)

/-- A branch begins at its first condition and ends with the last body, or with the last
condition if no case holds otherwise. -/
def branchSpan (chain : Cases) : Span :=
  let first := chain.1.head?.map fun case => case.1.place
  let last := (chain.1.getLast?).map fun case => case.1.place
  let final := match chain.2 with
    | some (body, _) => some body.place
    | none => last
  { start := (first.getD default).start, stop := (final.getD default).stop }

def branch (level : Level) : Rule Script := do
  let chain ← register (cases level Keyword.ifWord.spelling)
  return .branch (branchSpan chain) chain.1 chain.2

/-! ### Loops -/

def loopBody (level : Level) : Rule (Script × Bool) := do
  expectSymbol .colon .colon
  if ← isBlock then
    advance
    let body ← register level.statements
    expectKeyword .endWord
    return (body, true)
  else
    let body ← register level.statement
    return (body, false)

/-- A loop over numbers, or over the elements of a collection.  The latter has no form on
one line. -/
def forLoop (level : Level) : Rule Script := do
  expectKeyword .forWord
  let (name, placed) ← expectName .name
  if ← atSymbol .assign then
    advance
    let first ← register level.expr
    expectKeyword .toWord
    let limit ← register level.expr
    let step ←
      if ← atKeyword .stepWord then
        advance
        pure (some (← register level.expr))
      else pure none
    let (body, block) ← loopBody level
    return .count { start := placed.start, stop := body.place.stop } name first limit step body block
  else if ← atKeyword .inWord then
    advance
    let collection ← register level.expr
    let (body, block) ← loopBody level
    if block then
      return .each { start := placed.start, stop := body.place.stop } name collection body true
    else crash .inlineForEach
  else fail .assignment

def whileLoop (level : Level) : Rule Script := do
  expectKeyword .whileWord
  let condition ← register level.expr
  let (body, block) ← loopBody level
  return .loop { start := condition.place.start, stop := body.place.stop } condition body block

/-! ### Functions and calls -/

def optionalPart (level : Level) : Rule (String × Script) := do
  let (name, _) ← expectName .name
  expectSymbol .assign .argumentAssignment
  let value ← register level.atom
  return (name, value)

def parameters (level : Level) : Rule (List (String × Placed) × List (String × Script)) := do
  let first ← expectName .nameOrCloseParen
  let others ← afterCommas (expectName .name)
  let names := first :: others
  if ← atSymbol .assign then
    advance
    let value ← register level.atom
    let more ← afterCommas (optionalPart level)
    let last := (names.getLast?.getD first).1
    return (names.dropLast, (last, value) :: more)
  else return (names, [])

def parameterList (level : Level) : Rule (List (String × Placed) × List (String × Script)) := do
  match (← current).token with
  | .identifier _ =>
      let names ← parameters level
      expectSymbol .rightParen .commaOrParen
      return names
  | _ =>
      expectSymbol .rightParen .nameOrCloseParen
      return ([], [])

def functionHead : Rule (Option (String × Placed)) := do
  let placed ← current
  match placed.token with
  | .identifier name =>
      advance
      expectSymbol .leftParen .openParen
      return some (name, placed)
  | _ =>
      expectSymbol .leftParen .nameOrOpenParen
      return none

def functionBody (level : Level) : Rule (Script × Bool) := do
  if ← atSymbol .arrow then
    advance
    return (← register level.expr, true)
  else
    expectSymbol .leftCurly .openCurly
    if ← isBlock then advance else fail .arrowOrLine
    let body ← register level.statements
    expectSymbol .rightCurly .closeCurly
    return (body, false)

def functionDefinition (level : Level) : Rule Script := do
  expectKeyword .funcWord
  let head ← functionHead
  let (names, optional) ← parameterList level
  let (body, yields) ← functionBody level
  let start := match head, names with
    | some (_, placed), _ => placed.start
    | none, (_, placed) :: _ => placed.start
    | none, [] => body.place.start
  return .function { start, stop := body.place.stop } (head.map (·.1)) (names.map (·.1)) optional
    body yields

/-- Arguments in parentheses: expressions, of which the last may be a name that is given a
value; then more names with values. -/
def arguments (level : Level) : Rule (List Script × List (String × Script)) := do
  let first ← registerOr .argument level.expr
  let others ← afterCommas (register level.expr)
  let values := first :: others
  if ← atSymbol .assign then
    match values.getLast? with
    | some (.access _ name _) =>
        advance
        let value ← registerOr .argumentValue level.expr
        let more ← afterCommas (optionalPart level)
        return (values.dropLast, (name, value) :: more)
    | _ => fail .memberName
  else return (values, [])

/-! ### Expressions -/

def nameAccess (name : String) (placed : Placed) : Rule Script := do
  advance
  if ← atSymbol .dot then
    advance
    let (member, memberPlaced) ← expectName .memberName
    return .access { start := placed.start, stop := memberPlaced.stop } member (some name)
  else return .access { start := placed.start, stop := placed.stop } name none

def atom (level : Level) : Rule Script := do
  let placed ← current
  let span : Span := { start := placed.start, stop := placed.stop }
  match placed.token with
  | .int n =>
      advance
      return .number span (.int n)
  | .float x =>
      advance
      return .number span (.float x)
  | .string text =>
      advance
      return .string span text
  | .identifier name => nameAccess name placed
  | .symbol .leftParen =>
      advance
      let inner ← register level.expr
      expectSymbol .rightParen .closeParen
      return inner
  | .symbol .leftSquare => register (listLiteral level)
  | .symbol .leftCurly => register (dictLiteral level)
  | .keyword .ifWord => register (branch level)
  | .keyword .forWord => register (forLoop level)
  | .keyword .whileWord => register (whileLoop level)
  | .keyword .funcWord => register (functionDefinition level)
  | _ => fail .atom

def call (level : Level) : Rule Script := do
  let callee ← register (atom level)
  if ← atSymbol .leftParen then
    advance
    let (positional, optional) ←
      if ← atSymbol .rightParen then
        advance
        pure ([], [])
      else
        let values ← arguments level
        expectSymbol .rightParen .commaOrParen
        pure values
    let last := (positional.getLast?.getD callee).place
    return .call { start := callee.place.start, stop := last.stop } callee positional optional
  else return callee

def joinFrom (operator? : Token → Option BinaryOp) (right : Rule Script) :
    Nat → Script → Rule Script
  | 0, _ => crash .tooDeep
  | fuel + 1, left => do
      match operator? (← current).token with
      | some op =>
          advance
          let operand ← register right
          let span : Span := { start := left.place.start, stop := operand.place.stop }
          joinFrom operator? right fuel (.binary span op left operand)
      | none => return left

def joined (operator? : Token → Option BinaryOp) (first right : Rule Script) : Rule Script := do
  let left ← register first
  joinFrom operator? right (← remaining) left

def powerOperator? : Token → Option BinaryOp
  | .symbol .power => some .pow
  | _ => none

def productOperator? : Token → Option BinaryOp
  | .symbol .times => some .mul
  | .symbol .divide => some .div
  | .symbol .floorDivide => some .floorDiv
  | .symbol .remainder => some .mod
  | _ => none

def sumOperator? : Token → Option BinaryOp
  | .symbol .plus => some .add
  | .symbol .minus => some .sub
  | _ => none

def comparisonOperator? : Token → Option BinaryOp
  | .symbol .equal => some .eq
  | .symbol .notEqual => some .ne
  | .symbol .less => some .lt
  | .symbol .greater => some .gt
  | .symbol .lessEqual => some .le
  | .symbol .greaterEqual => some .ge
  | _ => none

def logicOperator? : Token → Option BinaryOp
  | .keyword .andWord => some .both
  | .keyword .orWord => some .either
  | _ => none

def signOperator? : Token → Option UnaryOp
  | .symbol .plus => some .plus
  | .symbol .minus => some .minus
  | _ => none

def power (level : Level) : Rule Script :=
  joined powerOperator? (call level) level.factor

def prefixed (op : UnaryOp) (operand : Rule Script) : Rule Script := do
  let start := (← current).start
  advance
  let inner ← register operand
  return .unary { start, stop := inner.place.stop } op inner

def factor (level : Level) : Rule Script := do
  match signOperator? (← current).token with
  | some op => prefixed op level.factor
  | none => power level

def product (level : Level) : Rule Script :=
  joined productOperator? (factor level) (factor level)

def sum (level : Level) : Rule Script :=
  joined sumOperator? (product level) (product level)

def comparison (level : Level) : Rule Script := do
  if ← atKeyword .notWord then prefixed .negation level.comparison
  else registerOr .comparison (joined comparisonOperator? (sum level) (sum level))

def expr (level : Level) : Rule Script := do
  if ← atKeyword .varWord then
    advance
    let (name, placed) ← expectName .name
    expectSymbol .assign .assignment
    let value ← register level.expr
    return .assign { start := placed.start, stop := value.place.stop } name value
  else
    registerOr .expression (joined logicOperator? (comparison level) (comparison level))

/-! ### Statements -/

def statement (level : Level) : Rule Script := do
  let start := (← current).start
  if ← atKeyword .returnWord then
    advance
    let value ← attempt (expr level)
    return .giveBack { start, stop := (← current).stop } value
  else if ← atKeyword .continueWord then
    advance
    return .skip { start, stop := (← current).stop }
  else if ← atKeyword .breakWord then
    advance
    return .leave { start, stop := (← current).stop }
  else registerOr .statement (expr level)

def nextStatement (level : Level) : Rule (Option Script) := do
  if (← skipNewlines) = 0 then return none
  else attempt (statement level)

def statements (level : Level) : Rule Script := do
  let start := (← current).start
  let _ ← skipNewlines
  let first ← register (statement level)
  let others ← many (nextStatement level)
  return .list { start, stop := (← current).stop } (first :: others)

def Level.next (level : Level) : Level :=
  { statements := Grammar.statements level
    statement := Grammar.statement level
    expr := Grammar.expr level
    comparison := Grammar.comparison level
    factor := Grammar.factor level
    atom := Grammar.atom level
    cases := Grammar.cases level }

def Level.of : Nat → Level
  | 0 => .ground
  | n + 1 => (Level.of n).next

/-! ### Whole scripts -/

def script (level : Level) : Rule Script := fun tokens =>
  (show Rule Script from do
    let placed ← current
    if tokens.size = 1 ∧ placed.token.isEof then
      return .list { start := placed.start, stop := placed.stop } []
    else
      let tree ← statements level
      if (← current).token.isEof then return tree else fail .operator) tokens

def run {α : Type} (rule : Level → Rule α) (tokens : List Placed) :
    Except Crash (Reply α × Reading) :=
  rule (Level.of (tokens.length + 1)) tokens.toArray { cursor := 0, counts := {} }

end Grammar

end Lingo
