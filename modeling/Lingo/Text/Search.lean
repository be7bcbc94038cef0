/-
Parts of texts.
-/

namespace Lingo.Text

def pieces (char : Char) : List Char → List (List Char)
  | [] => [[]]
  | first :: rest =>
      if first = char then [] :: pieces char rest
      else match pieces char rest with
        | piece :: others => (first :: piece) :: others
        | [] => [[first]]

def sliceBound (length : Nat) (bound : Int) : Nat :=
  if bound < 0 then (bound + length).toNat else min bound.toNat length

def slice (chars : List Char) (start stop : Int) : List Char :=
  let first := sliceBound chars.length start
  let last := sliceBound chars.length stop
  (chars.drop first).take (last - first)

end Lingo.Text
