/-
Runs: stretches of a list that are in order.

A run that falls strictly is turned around, and one that is too short takes in the items behind
it.
-/

import Lingo.Sorting.Search

namespace Lingo.Sorting

attribute [local instance (high)] instPowNat

abbrev Less (ε α : Type) := α → α → Except ε Bool

variable {ε α : Type}

def fallingRun (less : Less ε α) (last : α) : List α → Except ε Nat
  | [] => .ok 0
  | next :: rest => do
      if ← less next last then return (← fallingRun less next rest) + 1 else return 0

def risingRun (less : Less ε α) (last : α) : List α → Except ε Nat
  | [] => .ok 0
  | next :: rest => do
      if ← less next last then return 0 else return (← risingRun less next rest) + 1

/-- How many items continue the run that starts with a first item, and whether it falls. -/
def runBehind (less : Less ε α) (first : α) : List α → Except ε (Nat × Bool)
  | [] => .ok (0, false)
  | second :: rest => do
      if ← less second first then return ((← fallingRun less second rest) + 1, true)
      else return ((← risingRun less second rest) + 1, false)

def insertAll (less : Less ε α) (run : List α) : List α → Except ε (List α)
  | [] => .ok run
  | item :: rest => do
      let place ← halve (fun known => return !(← less item known)) .front run 0 run.length
      insertAll less (run.take place ++ item :: run.drop place) rest

/-- The least length of a run in a list of the given length, the last run excepted: the
whole divided by the power of two that leaves less than 64, rounded up. -/
def shortestRun (total : Nat) : Nat :=
  let divisor := 2 ^ (Nat.log2 total - 5)
  (total + divisor - 1) / divisor

def runs (less : Less ε α) (shortest : Nat) : List α → Except ε (List (List α))
  | [] => .ok []
  | first :: rest => do
      let (behind, falls) ← runBehind less first rest
      let natural := first :: rest.take behind
      let taken := max behind (shortest - 1)
      let run ← insertAll less (if falls then natural.reverse else natural)
        ((rest.take taken).drop behind)
      return run :: (← runs less shortest (rest.drop taken))
termination_by items => items.length
decreasing_by simp only [List.length_drop, List.length_cons]; omega

end Lingo.Sorting
