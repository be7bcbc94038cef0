/-
Searches in a run from one of its ends.

A search counts the items at an end that pass a test, taking it that those which pass stand
before those which do not.  It looks ahead in strides that double and then halves the gap
that is left.
-/

namespace Lingo.Sorting

inductive Start where
  | front
  | back
deriving DecidableEq, Repr, Inhabited

/-- The middle of a gap, counted from the start; of two middles it is the one that stands
later in the run. -/
def Start.middle : Start → Nat → Nat
  | front, gap => gap / 2
  | back, gap => (gap - 1) / 2

theorem Start.middle_lt (start : Start) {gap : Nat} (positive : 0 < gap) :
    start.middle gap < gap := by
  cases start <;> simp only [Start.middle] <;> omega

variable {ε α : Type}

/-- Halves the gap between a place before which all items pass and one from which on none
does. -/
def halve (passes : α → Except ε Bool) (start : Start) (items : List α) (low high : Nat) :
    Except ε Nat :=
  if apart : low < high then
    have := start.middle_lt (Nat.sub_pos_of_lt apart)
    let place := low + start.middle (high - low)
    match items[place]? with
    | none => .ok low
    | some item => do
        if ← passes item then halve passes start items (place + 1) high
        else halve passes start items low place
  else .ok low
termination_by high - low

/-- Looks ahead in strides that double, from a place known to pass.  The result is the last
place known to pass and the first known not to. -/
def stride (passes : α → Except ε Bool) (items : List α) (known next : Nat) :
    Except ε (Nat × Nat) :=
  match found : items[next]? with
  | none => .ok (known, items.length)
  | some item => do
      have := (List.getElem?_eq_some_iff.mp found).1
      if ← passes item then stride passes items next (2 * next + 1)
      else return (known, next)
termination_by items.length - next

def reach (passes : α → Except ε Bool) (start : Start) : List α → Except ε Nat
  | [] => .ok 0
  | first :: rest => do
      if ← passes first then
        let (known, next) ← stride passes (first :: rest) 0 1
        halve passes start (first :: rest) (known + 1) next
      else return 0

end Lingo.Sorting
