/-
Grammar rules as activities over tokens.

A rule keeps the counts of its own attempt; parts of it run with counts of their own.
-/

import Lingo.Syntax.Attempt
import Lingo.Syntax.Expectation
import Lingo.Syntax.Tree
import Lingo.Token.Basic

namespace Lingo

structure SyntaxFault where
  expected : Expectation
  start : Position
  stop : Position
deriving DecidableEq, Repr, Inhabited

inductive Reply (α : Type) where
  | success (result : α)
  | failure (fault : SyntaxFault)
deriving Repr, Inhabited

structure Reading where
  cursor : Nat
  counts : Counts
deriving DecidableEq, Repr, Inhabited

/-- The record of a rule that is under way, without an error or a result. -/
def Reading.record {α : Type} (reading : Reading) : Attempt SyntaxFault α :=
  { counts := reading.counts }

/-- The record that a rule hands back. -/
def Attempt.ofReply {α : Type} (after : Reading) : Reply α → Attempt SyntaxFault α
  | .success result => after.record.succeed result
  | .failure fault => after.record.fail fault

def Rule (α : Type) : Type :=
  Array Placed → Reading → Except Crash (Reply α × Reading)

namespace Rule

variable {α β : Type}

protected def pure (result : α) : Rule α :=
  fun _ reading => .ok (.success result, reading)

protected def bind (first : Rule α) (next : α → Rule β) : Rule β :=
  fun tokens reading =>
    match first tokens reading with
    | .ok (.success result, after) => next result tokens after
    | .ok (.failure fault, after) => .ok (.failure fault, after)
    | .error crash => .error crash

instance : Monad Rule where
  pure := Rule.pure
  bind := Rule.bind

def crash (cause : Crash) : Rule α :=
  fun _ _ => .error cause

/-- The token at an index; the last one stands for all beyond it. -/
def tokenAt (tokens : Array Placed) (index : Nat) : Placed :=
  tokens.getD (min index (tokens.size - 1)) default

def current : Rule Placed :=
  fun tokens reading => .ok (.success (tokenAt tokens reading.cursor), reading)

/-- The number of tokens from the cursor on; it bounds all repetition. -/
def remaining : Rule Nat :=
  fun tokens reading => .ok (.success (tokens.size - reading.cursor + 1), reading)

/-- Counts a token in the record. -/
def note : Rule Unit :=
  fun _ reading =>
    let record : Attempt SyntaxFault Unit := reading.record.step
    .ok (.success (), { reading with counts := record.counts })

def step : Rule Unit :=
  fun _ reading => .ok (.success (), { reading with cursor := reading.cursor + 1 })

def advance : Rule Unit := do
  note
  step

def fail (expected : Expectation) : Rule α :=
  fun tokens reading =>
    let token := tokenAt tokens reading.cursor
    .ok (.failure { expected, start := token.start, stop := token.stop }, reading)

def register (part : Rule α) : Rule α :=
  fun tokens reading =>
    match part tokens { cursor := reading.cursor, counts := {} } with
    | .ok (reply, after) =>
        let record := reading.record.register (.ofReply after reply)
        .ok (reply, { after with counts := record.counts })
    | .error crash => .error crash

/-- Applies a rule as a part.  If it fails before any token was passed, the error is that
of the whole. -/
def registerOr (expected : Expectation) (part : Rule α) : Rule α :=
  fun tokens reading =>
    match register part tokens reading with
    | .ok (.failure fault, after) =>
        if after.counts.passed = 0 then fail expected tokens after
        else .ok (.failure fault, after)
    | other => other

/-- Applies a rule as a part that may fail.  The cursor then goes back by what the record says. -/
def attempt (part : Rule α) : Rule (Option α) :=
  fun tokens reading =>
    match part tokens { cursor := reading.cursor, counts := {} } with
    | .ok (.success result, after) =>
        let record := reading.record.tryRegister (.ofReply after (.success result))
        .ok (.success (some result), { after with counts := record.counts })
    | .ok (.failure fault, after) =>
        let record := reading.record.tryRegister (.ofReply after (.failure fault : Reply α))
        .ok (.success none,
          { cursor := after.cursor - record.counts.returned, counts := record.counts })
    | .error crash => .error crash

def atSymbol (symbol : Symbol) : Rule Bool := do
  return (← current).token.isSymbol symbol

def atKeyword (word : Keyword) : Rule Bool := do
  return (← current).token.isKeyword word

def expectSymbol (symbol : Symbol) (expected : Expectation) : Rule Unit := do
  if ← atSymbol symbol then advance else fail expected

def expectKeyword (word : Keyword) : Rule Unit := do
  if ← atKeyword word then advance else fail (.keyword word.spelling)

def expectName (expected : Expectation) : Rule (String × Placed) := do
  let placed ← current
  match placed.token with
  | .identifier name =>
      advance
      return (name, placed)
  | _ => fail expected

def collect (step : Rule (Option α)) : Nat → List α → Rule (List α)
  | 0, _ => crash .tooDeep
  | fuel + 1, collected => do
      match ← step with
      | some result => collect step fuel (result :: collected)
      | none => return collected.reverse

def many (step : Rule (Option α)) : Rule (List α) := do
  collect step (← remaining) []

def afterCommas (part : Rule α) : Rule (List α) :=
  many do
    if ← atSymbol .comma then
      advance
      return some (← part)
    else return none

def skipNewlines : Rule Nat := do
  let passed ← many do
    if (← current).token.isNewline then
      advance
      return some ()
    else return none
  return passed.length

end Rule

end Lingo
