/-
Sorting of scalars.
-/

import Lingo.Scalar.Order
import Lingo.Sorting.Basic

namespace Lingo.Scalar

def sort (scalars : List Scalar) : Except Crash (List Scalar) :=
  Sorting.sort lt scalars

end Lingo.Scalar
