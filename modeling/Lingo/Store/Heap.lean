/-
Heaps: growing arrays of cells that are addressed by number.

A cell that was never made reads as the default.  Changing or making a cell
changes no other.
-/

namespace Lingo

structure Heap (α : Type) where
  cells : Array α
deriving Repr, Inhabited

namespace Heap

variable {α : Type}

def empty : Heap α :=
  { cells := #[] }

def size (heap : Heap α) : Nat :=
  heap.cells.size

def read [Inhabited α] (heap : Heap α) (address : Nat) : α :=
  heap.cells.getD address default

def modify (heap : Heap α) (address : Nat) (change : α → α) : Heap α :=
  { cells := heap.cells.modify address change }

def push (heap : Heap α) (cell : α) : Heap α :=
  { cells := heap.cells.push cell }

@[simp] theorem size_push (heap : Heap α) (cell : α) :
    (heap.push cell).size = heap.size + 1 := by
  simp [push, size]

theorem lt_size_push (heap : Heap α) (cell : α) : heap.size < (heap.push cell).size :=
  Nat.lt_of_lt_of_eq (Nat.lt_succ_self _) (heap.size_push cell).symm

@[simp] theorem read_push_new [Inhabited α] (heap : Heap α) (cell : α) :
    (heap.push cell).read heap.size = cell := by
  simp [push, read, size]

theorem read_push_old [Inhabited α] (heap : Heap α) (cell : α) {address : Nat}
    (inside : address < heap.size) : (heap.push cell).read address = heap.read address := by
  simp only [size] at inside
  simp [push, read, Array.getElem?_push, Nat.ne_of_lt inside]

end Heap

end Lingo
