/-
Workloads for values, records and excerpts.
-/

import Lingo.Eval.Outcome
import Lingo.Source.Excerpt
import Lingo.Syntax.Attempt
import Lingo.Syntax.Outline
import Lingo.Workload.Basic

namespace Lingo.Workload

open Activity

def exhibits (ids : List ObjectId) : Activity String := do
  let known ← store
  let texts ← settle (ids.mapM fun id => Display.exhibit known (.object id))
  return String.join texts

def operators : List BinaryOp :=
  [.add, .sub, .mul, .div, .floorDiv, .mod, .pow, .eq, .ne, .lt, .gt, .le, .ge, .both, .either]

def refuses (known : Store) (subject : Object) (op : BinaryOp) : Bool :=
  match Operation.binary known op subject subject with
  | .ok (.error _) => true
  | _ => false

def plainAnswers : Activity (List Answer) := do
  let id ← makeBare .plain
  let subject ← object id
  let known ← store
  let copied ← ExceptT.lift (copy id).run
  let refusals := operators.map fun op => Answer.flag (refuses known subject op)
  return refusals ++
    [.flag !(Operation.negation subject).isOk, .flag (Operation.isTrue subject),
      .flag !(Evaluator.checkCount "" subject [] [id]).isOk,
      match copied with
      | .ok _ => .nothing
      | .error cause => .ended cause]

def outlines : Activity String := do
  let five : Tree Unit := .number () (.int 5)
  let trees : List (Tree Unit) :=
    [five, five, .binary () .add five five, .unary () .plus five]
  let texts ← settle (trees.mapM Tree.outline?)
  return String.join (texts.filterMap id)

def valueRound : Activity (List Answer) := do
  let number ← makeBare (.number (.int 3))
  let text ← makeBare (.text "hi")
  let list ← makeList #[.object number, .object text]
  let dict ← makeBare (.dict (← addDict #[(text, .object number)]))
  let builtin ← makeBare (.builtin Builtin.len.name)
  let plainText ← settle (Display.text (← store) text)
  let shown := (← exhibits [number, text]) ++ plainText ++ (← exhibits [list, dict])
  let copies ← [number, text, list, dict].mapM copy
  let tokens ← settle ([Token.int 5, Token.symbol .plus].mapM Token.display)
  let taken : Outcome Fault String := .succeed "rawstr"
  let counts : Counts := ({} : Attempt Fault String).counts
  return [.text shown, .text (← exhibits copies), .text (← exhibits [builtin, ← copy builtin])] ++
    (← plainAnswers) ++
    [.text (taken.value.getD ""), .text (String.join tokens), .text (← outlines),
      .series [.count counts.latest, .count counts.passed]]

def values : Workload where
  size := 20
  run size := do
    let id ← makeBare (.number (.int 1))
    let table ← addTable { symbols := [("k", some id)] }
    let shown ← settle (Display.table (← store) table)
    return .series (.text shown :: (← rounds valueRound size))

def excerptLine (n : Nat) : String :=
  "row " ++ toString n ++ " holds " ++ toString n ++ " now"

def excerptLength (text : String) (line : Nat) : Nat :=
  (Excerpt.render text .origin { index := 0, line, column := 2 }).length

def excerpts : Workload where
  size := 60
  run size :=
    let text := script ((List.range size).map excerptLine)
    return .count (((List.range size).drop 1).foldl (· + excerptLength text ·) 0)

end Lingo.Workload
