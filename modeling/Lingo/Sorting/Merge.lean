/-
Merging of two neighbouring runs.

Work goes from the end at which the shorter run stands.  Items are taken one by one until
one run is ahead several times in a row; from then on they are taken in stretches, as long
as the stretches are worth it.  Items that are equal keep their order.
-/

import Lingo.Sorting.Run

namespace Lingo.Sorting

inductive Mode where
  | single (short long : Nat)
  | stretches
deriving DecidableEq, Repr, Inhabited

def worthwhile : Nat := 7

structure Merging (α : Type) where
  start : Start
  done : Array α := #[]
  /-- What is left of the run that was shorter, the left one if work starts in front. -/
  short : List α
  long : List α
  mode : Mode := .single 0 0
  /-- How many items in a row lead to taking stretches. -/
  patience : Nat

namespace Merging

variable {ε α : Type}

def takeShort (merging : Merging α) (count : Nat) : Merging α :=
  { merging with
    done := merging.done ++ merging.short.take count
    short := merging.short.drop count }

def takeLong (merging : Merging α) (count : Nat) : Merging α :=
  { merging with
    done := merging.done ++ merging.long.take count
    long := merging.long.drop count }

/-- Whether the order of what is left needs no comparison: a run is used up, or all that is
left of the shorter one is its last item, which goes behind everything. -/
def isSettled (merging : Merging α) : Bool :=
  match merging.short, merging.long with
  | _, [] => true
  | [], _ => true
  | [_], _ => true
  | _, _ => false

def close (merging : Merging α) : List α :=
  (merging.done ++ merging.long ++ merging.short).toList

def overtakes (less : Less ε α) (start : Start) (short long : α) : Except ε Bool :=
  match start with
  | .front => less long short
  | .back => less short long

def counted (merging : Merging α) (short long : Nat) : Merging α :=
  { merging with
    mode := if merging.patience ≤ max short long then .stretches else .single short long }

def single (less : Less ε α) (merging : Merging α) (shortRow longRow : Nat) :
    Except ε (Merging α) :=
  match merging.short, merging.long with
  | short :: _, long :: _ => do
      if ← overtakes less merging.start short long then
        return (merging.takeLong 1).counted 0 (longRow + 1)
      else return (merging.takeShort 1).counted (shortRow + 1) 0
  | _, _ => .ok merging

/-- Takes the stretch of the shorter run that goes before the head of the longer one, then
that head.  The length of the stretch is part of the result. -/
def stretchShort (less : Less ε α) (merging : Merging α) : Except ε (Nat × Merging α) :=
  match merging.long with
  | [] => .ok (0, merging)
  | head :: _ => do
      let count ← reach (fun item => return !(← overtakes less merging.start item head))
        merging.start merging.short
      let merging := merging.takeShort count
      return (count, if merging.isSettled then merging else merging.takeLong 1)

def stretchLong (less : Less ε α) (merging : Merging α) : Except ε (Nat × Merging α) :=
  match merging.short with
  | [] => .ok (0, merging)
  | head :: _ => do
      let count ← reach (overtakes less merging.start head) merging.start merging.long
      let merging := merging.takeLong count
      return (count, if merging.isSettled then merging else merging.takeShort 1)

/-- Takes a stretch of each run, of the left one first.  Each round in which one of them was
worthwhile lowers the patience; a round in which none was raises it and is the last. -/
def bothStretches (less : Less ε α) (merging : Merging α) : Except ε (Merging α) := do
  let (left, right) := match merging.start with
    | .front => (stretchShort less, stretchLong less)
    | .back => (stretchLong less, stretchShort less)
  let (leftCount, merging) ← left merging
  if merging.isSettled then return merging
  let (rightCount, merging) ← right merging
  if merging.isSettled then return merging
  if worthwhile ≤ max leftCount rightCount then
    return { merging with patience := max 1 (merging.patience - 1) }
  else return { merging with patience := merging.patience + 1, mode := .single 0 0 }

def step (less : Less ε α) (merging : Merging α) : Except ε (Merging α) :=
  match merging.mode with
  | .single shortRow longRow => merging.single less shortRow longRow
  | .stretches => merging.bothStretches less

def settle (less : Less ε α) : Nat → Merging α → Except ε (Merging α)
  | 0, merging => .ok merging
  | fuel + 1, merging =>
      if merging.isSettled then .ok merging
      else do settle less fuel (← merging.step less)

def complete (less : Less ε α) (merging : Merging α) : Except ε (Merging α) :=
  settle less (merging.short.length + merging.long.length) (merging.takeLong 1)

end Merging

/-- A computation that merges runs; it keeps the patience from one merge to the next. -/
abbrev Merger (ε : Type) := StateT Nat (Except ε)

variable {ε α : Type}

/-- Merges two runs in which neither side is empty, the last of all is on the left and the
first of all on the right. -/
def mergeCore (less : Less ε α) (left right : List α) : Merger ε (List α) := do
  let patience ← get
  if left.length ≤ right.length then
    let merging ← Merging.complete less { start := .front, short := left, long := right, patience }
    set merging.patience
    return merging.close
  else
    let merging ← Merging.complete less
      { start := .back, short := right.reverse, long := left.reverse, patience }
    set merging.patience
    return merging.close.reverse

/-- Merges two neighbouring runs.  Items on the left that go before all on the right, and
items on the right that go behind all on the left, stay where they are. -/
def mergeRuns (less : Less ε α) (left right : List α) : Merger ε (List α) :=
  match right with
  | [] => return left
  | head :: _ => do
      let before ← reach (fun item => return !(← less head item)) .front left
      match (left.drop before).getLast? with
      | none => return left ++ right
      | some last =>
          let after ← reach (fun item => return !(← less item last)) .back right.reverse
          let within := right.length - after
          let merged ←
            if within = 0 then pure (left.drop before)
            else mergeCore less (left.drop before) (right.take within)
          return left.take before ++ merged ++ right.drop within

end Lingo.Sorting
