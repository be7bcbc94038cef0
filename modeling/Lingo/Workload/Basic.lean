/-
Workloads: fixed programs of a chosen size that exercise the language, and what they
answer.
-/

import Lingo.Shell

namespace Lingo

namespace Workload

inductive Answer where
  | nothing
  | count (value : Nat)
  | flag (value : Bool)
  | text (value : String)
  | ended (cause : Crash)
  | series (parts : List Answer)
deriving Inhabited

end Workload

structure Workload where
  size : Nat
  run : Nat → Activity Workload.Answer

namespace Workload

open Activity

def cycled {α : Type} (items : List α) (size : Nat) : List α :=
  (List.range size).filterMap fun n => items[n % items.length]?

def faultAnswer (fault : Fault) : Answer :=
  match fault.message? with
  | some message => .text message
  | none => .ended .missingPart

def valueAnswer (value : Option ObjectId) : Activity Answer := do
  match value with
  | none => return .nothing
  | some id =>
      match Display.text (← store) id with
      | .ok text => return .text text
      | .error cause => return .ended cause

def runText (name text : String) : Activity (Except Fault (Option ObjectId)) :=
  Machine.run Limits.standard { name, text } ""

def answerText (name text : String) : Activity Answer := do
  match ← runText name text with
  | .ok value => valueAnswer value
  | .error fault => return faultAnswer fault

def rounds (round : Activity (List Answer)) : Nat → Activity (List Answer)
  | 0 => return []
  | count + 1 => do
      let first ← round
      return first ++ (← rounds round count)

def script (lines : List String) : String :=
  "\n".intercalate lines

end Workload

end Lingo
