/-
Loops.

Before each round a loop asks whether there is to be one: a counter is within its limit, a
collection has a further element, or a condition holds.  The three kinds of loop differ in this
only.
-/

import Lingo.Eval.Evaluator

namespace Lingo.Evaluator

open Activity

inductive Header where
  | count (name : String) (first limit : Script) (step : Option Script)
  | each (name : String) (collection : Script)
  | test (condition : Script)

inductive Head where
  | counting (name : String) (limit step : ObjectId) (rising : Bool) (counter : Scalar)
  | reading (name : String) (collection : Collection) (index : Nat)
  | testing (condition : Script)

def Header.script (span : Span) (body : Script) (block : Bool) : Header → Script
  | .count name first limit step => .count span name first limit step body block
  | .each name collection => .each span name collection body block
  | .test condition => .loop span condition body block

def Header.opening (self : Evaluator) (context : Context) : Header → Eval Head
  | .count name first limit step => do
      let start ← self first context
      let stop ← self limit context
      let stride ← stepValue self step context
      let counter ← scalar start
      let rising ← settle ((← scalar stride).ge (.int 0))
      return .counting name stop stride rising counter
  | .each name collection => do
      match ← (self collection context).observe with
      | .ok id => return .reading name (← collectionOf id) 0
      | .error (.failed fault) => Eval.fail fault
      | .error _ => crash .missingPart
  | .test condition => return .testing condition

namespace Head

def names : Head → List String
  | .counting name _ _ _ _ => [name]
  | .reading name _ _ => [name]
  | .testing _ => []

variable (self : Evaluator) (body : Script) (context : Context)

/-- Makes ready for a round, if there is to be one, and tells what comes after it. -/
def ask : Head → Eval (Option Head)
  | .counting name limit step rising counter => do
      if ← settle (within rising counter (← scalar limit)) then
        assign context name (← makeBare (.number counter))
        let next ← settle (counter.add (← scalar step))
        return some (.counting name limit step rising next)
      else return none
  | .reading name collection index => do
      match ← collection.next index with
      | some slot =>
          let held ← scalar (← objectAt slot)
          assign context name (← makeBare (.number held))
          return some (.reading name collection (index + 1))
      | none => return none
  | .testing condition => do
      let test ← self condition context
      if Operation.isTrue (← object test) then return some (.testing condition) else return none

/-- All rounds from here on, of which there may be so many, behind those that came to values. -/
def rounds (count : Nat) (values : List ObjectId) : Head → Eval (List ObjectId)
  | .counting name limit step rising counter =>
      countRounds self name limit step rising body context count counter values
  | .reading name collection index =>
      eachRounds self name collection body context count index values
  | .testing condition => loopRounds self condition body context count values

def afterRound (next : Head) (count : Nat) (values : List ObjectId) : Round → Eval (List ObjectId)
  | .value id => next.rounds self body context count (id :: values)
  | .skipped => next.rounds self body context count values
  | .left => return values.reverse

def answered (count : Nat) (values : List ObjectId) : Option Head → Eval (List ObjectId)
  | some next => Evaluator.round self body context >>= next.afterRound self body context count values
  | none => return values.reverse

theorem rounds_succ (head : Head) (count : Nat) (values : List ObjectId) :
    head.rounds self body context (count + 1) values =
      head.ask self context >>= answered self body context count values := by
  cases head with
  | counting name limit step rising counter =>
      unfold rounds countRounds ask
      simp only [bind_assoc]
      refine bind_congr fun bound => bind_congr fun goes => ?_
      by_cases holds : goes = true
      · simp only [if_pos holds, bind_assoc, pure_bind]
        refine bind_congr fun made => bind_congr fun _ => bind_congr fun stride =>
          bind_congr fun next => bind_congr fun round => ?_
        cases round <;> rfl
      · simp only [if_neg holds, pure_bind]
        rfl
  | reading name collection index =>
      unfold rounds eachRounds ask
      simp only [bind_assoc]
      refine bind_congr fun found => ?_
      cases found with
      | some slot =>
          simp only [bind_assoc, pure_bind]
          refine bind_congr fun id => bind_congr fun held => bind_congr fun made =>
            bind_congr fun _ => bind_congr fun round => ?_
          cases round <;> rfl
      | none => rfl
  | testing condition =>
      unfold rounds loopRounds ask
      simp only [bind_assoc]
      refine bind_congr fun test => bind_congr fun object => ?_
      by_cases holds : Operation.isTrue object = true
      · simp only [if_pos holds, pure_bind]
        refine bind_congr fun round => ?_
        cases round <;> rfl
      · simp only [if_neg holds, pure_bind]
        rfl

end Head

theorem step_script (limits : Limits) (self : Evaluator) (execute : Executor) (header : Header)
    (span : Span) (body : Script) (block : Bool) (context : Context) :
    step limits self execute (header.script span body block) context =
      header.opening self context >>= fun head =>
        head.rounds self body context limits.rounds [] >>= loopValue span block context := by
  cases header with
  | count name first limit step =>
      change countValue limits self span name first limit step body block context = _
      unfold countValue Header.opening
      simp only [bind_assoc, pure_bind]
      rfl
  | each name collection =>
      change eachValue limits self span name collection body block context = _
      unfold eachValue Header.opening
      simp only [bind_assoc]
      refine bind_congr fun outcome => ?_
      cases outcome with
      | ok id =>
          simp only [bind_assoc, pure_bind]
          rfl
      | error interrupt => cases interrupt <;> rfl
  | test condition =>
      unfold Header.opening
      rw [pure_bind]
      rfl

end Lingo.Evaluator
