/-
Places in a script text.

Marks count from zero, and their coordinates are integers: a mark may stand before the text.
-/

namespace Lingo

structure Source where
  name : String
  text : String
deriving DecidableEq, Repr, Inhabited

structure Mark where
  index : Int
  line : Int
  column : Int
deriving DecidableEq, Repr, Inhabited

namespace Mark

def origin : Mark :=
  { index := 0, line := 0, column := 0 }

def advance (mark : Mark) (breaksLine : Bool) : Mark :=
  if breaksLine then
    { index := mark.index + 1, line := mark.line + 1, column := 0 }
  else
    { index := mark.index + 1, line := mark.line, column := mark.column + 1 }

def after (mark : Mark) (char : Char) : Mark :=
  mark.advance (char == '\n')

def next (mark : Mark) : Mark :=
  mark.advance false

@[simp] theorem advance_index (mark : Mark) (breaksLine : Bool) :
    (mark.advance breaksLine).index = mark.index + 1 := by
  cases breaksLine <;> rfl

@[simp] theorem after_index (mark : Mark) (char : Char) :
    (mark.after char).index = mark.index + 1 := by
  simp [after]

@[simp] theorem next_index (mark : Mark) : mark.next.index = mark.index + 1 := by
  simp [next]

end Mark

structure Position where
  source : Source
  mark : Mark
deriving DecidableEq, Repr, Inhabited

structure Span where
  start : Position
  stop : Position
deriving DecidableEq, Repr, Inhabited

end Lingo
