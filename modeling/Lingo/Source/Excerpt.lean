/-
An excerpt shows the source lines from one mark to another, each followed by a line of carets
under the marked columns.

Each line but the first of the text is cut together with the break in front of it.  Tabs are
left out.
-/

import Lingo.Source.Position

namespace Lingo.Excerpt

/-- The index of the last line break among the first `limit` characters, and
`found` if there is none; `index` counts the characters already passed. -/
def lastBreak (limit : Nat) : List Char → Nat → Nat → Nat
  | [], _, found => found
  | char :: rest, index, found =>
      if index < limit then
        lastBreak limit rest (index + 1) (if char = '\n' then index else found)
      else found

def nextBreak (chars : List Char) (start : Nat) : Nat :=
  min chars.length (start + ((chars.drop start).takeWhile (· ≠ '\n')).length)

def clampEnd (length : Nat) (index : Int) : Nat :=
  if index < 0 then (index + length).toNat else min index.toNat length

def carets (first stop : Int) : List Char :=
  List.replicate first.toNat ' ' ++ List.replicate (stop - first).toNat '^'

/-- Writes `count` lines, the first of them cut from `start` to `stop`.  Carets
begin at column `first`, and on the last line they end at column `last`. -/
def lines (chars : List Char) (last : Int) : Nat → Int → Nat → Nat → List Char
  | 0, _, _, _ => []
  | count + 1, first, start, stop =>
      let line := (chars.drop start).take (stop - start)
      let final := if count = 0 then last else (line.length : Int) - 1
      line ++ '\n' :: carets first final ++
        lines chars last count 0 stop (nextBreak chars (stop + 1))

def render (text : String) (start stop : Mark) : String :=
  let chars := text.toList
  let first := lastBreak (clampEnd chars.length start.index) chars 0 0
  let count := (stop.line - start.line + 1).toNat
  String.ofList
    ((lines chars stop.column count start.column first (nextBreak chars (first + 1))).filter
      (· ≠ '\t'))

end Lingo.Excerpt
