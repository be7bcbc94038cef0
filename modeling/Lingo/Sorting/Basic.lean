/-
Sorting by merging runs.

The runs of a list are put on a pile from left to right.  How deep a border between two runs
lies tells when they are merged: before a run is added, all borders on the pile that lie
deeper than its own are closed.  Items that are equal keep their order.
-/

import Lingo.Sorting.Merge

namespace Lingo.Sorting

attribute [local instance (high)] instPowNat

variable {ε α : Type}

/-- The depth of the border between two neighbouring runs, given where the left one begins:
the first binary place in which the middles of the runs, as fractions of the whole, differ. -/
def borderDepth (total offset left right : Nat) : Nat :=
  let leftMiddle := 2 * offset + left
  let rightMiddle := leftMiddle + left + right
  let places := List.range (Nat.log2 total + 1)
  (places.find? fun place =>
    leftMiddle * 2 ^ place / total ≠ rightMiddle * 2 ^ place / total).getD places.length

/-- Closes the borders on a pile that lie deeper than a given one.  Below the top run stand
the others, each with the depth of the border above it. -/
def closeDeeper (less : Less ε α) (depth : Nat) (top : List α) :
    List (List α × Nat) → Merger ε (List α × List (List α × Nat))
  | [] => return (top, [])
  | (run, border) :: below => do
      if depth < border then closeDeeper less depth (← mergeRuns less run top) below
      else return (top, (run, border) :: below)

/-- Merges all runs on a pile from the top on; a third run that is shorter than the top one
takes in the second first. -/
def closeAll (less : Less ε α) (top : List α) : List (List α) → Merger ε (List α)
  | [] => return top
  | [second] => mergeRuns less second top
  | second :: third :: below => do
      if third.length < top.length then
        closeAll less top ((← mergeRuns less third second) :: below)
      else closeAll less (← mergeRuns less second top) (third :: below)
termination_by below => below.length

def pileUp (less : Less ε α) (total : Nat) :
    Nat → List α → List (List α × Nat) → List (List α) → Merger ε (List α)
  | _, top, below, [] => closeAll less top (below.map (·.1))
  | offset, top, below, next :: rest => do
      let depth := borderDepth total offset top.length next.length
      let (merged, below) ← closeDeeper less depth top below
      pileUp less total (offset + top.length) next ((merged, depth) :: below) rest

def sort (less : Less ε α) (items : List α) : Except ε (List α) := do
  match ← runs less (shortestRun items.length) items with
  | [] => return []
  | first :: rest => (pileUp less items.length 0 first [] rest).run' worthwhile

end Lingo.Sorting
