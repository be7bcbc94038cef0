/-
The lines of a text, and the comparison of what was printed with what was expected.
-/

import Lingo.Crash
import Lingo.Text.Search

namespace Lingo.Text

/-- The lines of a text, without their line feeds.  A line feed at the end starts no
further line. -/
def lines (text : String) : List String :=
  let parts := pieces '\n' text.toList
  (if parts.getLast? = some [] then parts.dropLast else parts).map String.ofList

inductive Verdict where
  | same
  | different
  | surplus
deriving DecidableEq, Repr, Inhabited

/-- Compares line by line, as far as lines are expected.  Where a line is expected and none
was printed, the comparison ends abnormally. -/
def compareLines : List String → List String → Except Crash Verdict
  | _, [] => .ok .same
  | [], _ :: _ => .error .missingElement
  | line :: printed, other :: expected =>
      if line = other then compareLines printed expected else .ok .different

def judge (printed expected : List String) : Except Crash Verdict :=
  if expected.length + 1 < printed.length then .ok .surplus
  else compareLines printed expected

end Lingo.Text
