/-
Faults: the errors that a script is told about.
-/

import Lingo.Complaint
import Lingo.Source.Excerpt
import Lingo.Syntax.Rule
import Lingo.Token.Lexer

namespace Lingo

structure Entry where
  name : String
  entered : Option Position
deriving DecidableEq, Repr, Inhabited

/-- The cause of a fault; an error of a running script comes with the activities under way,
the innermost first. -/
inductive Cause where
  | text (cause : LexCause)
  | grammar (expected : Expectation)
  | running (complaint : Complaint) (trace : List Entry)
deriving DecidableEq, Repr, Inhabited

namespace Cause

def heading : Cause → String
  | text (.illegal _) => "Illegal Character"
  | text _ => "Expected Character"
  | grammar _ => "Invalid Syntax"
  | running _ _ => "Runtime Error"

def details : Cause → String
  | text cause => cause.details
  | grammar expected => expected.details
  | running complaint _ => complaint.details

end Cause

/-- Values that the language makes itself have no place in a source, so a place may be missing. -/
structure Fault where
  cause : Cause
  start : Option Position
  stop : Option Position
deriving DecidableEq, Repr, Inhabited

namespace Fault

def ofText (cause : LexCause) (start stop : Position) : Fault :=
  { cause := .text cause, start := some start, stop := some stop }

def ofSyntax (fault : SyntaxFault) : Fault :=
  { cause := .grammar fault.expected, start := some fault.start, stop := some fault.stop }

def traceLine (position : Position) (name : String) : String :=
  "  File " ++ position.source.name ++ ", line " ++ toString (position.mark.line + 1) ++ ", in " ++
    name ++ "\n"

/-- The outermost activity comes first, and each is shown at the place where the next inner one was
entered; all of these places are needed. -/
def traceLines : Option Position → List Entry → Option String
  | _, [] => some ""
  | none, _ :: _ => none
  | some position, entry :: outer => do
      return (← traceLines entry.entered outer) ++ traceLine position entry.name

def excerpt (start stop : Position) : String :=
  Excerpt.render start.source.text start.mark stop.mark

def message? (fault : Fault) : Option String := do
  let start ← fault.start
  let stop ← fault.stop
  let heading := fault.cause.heading ++ ": " ++ fault.cause.details
  match fault.cause with
  | .running _ trace =>
      let lines ← traceLines (some start) trace
      return "Traceback (most recent call last):\n" ++ lines ++ heading ++ "\n\n" ++
        excerpt start stop
  | _ =>
      return heading ++ "\nFile " ++ start.source.name ++ ", line " ++
        toString (start.mark.line + 1) ++ "\n\n" ++ excerpt start stop

end Fault

end Lingo
