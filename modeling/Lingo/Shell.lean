/-
The shell: texts are run one after the other on one machine, and faults are printed.
-/

import Lingo.Eval.Evaluator

namespace Lingo

def version : String := "0.0.1"

namespace Shell

open Activity

def promptText : String := "kode> "

def farewell : String := "exit"

def sourceName : String := "<stdin>"

def respond (limits : Limits) (text : String) : Activity Unit := do
  if Text.strip text = "" then return ()
  match ← Machine.run limits { name := sourceName, text } "" with
  | .ok _ => return ()
  | .error fault => print (← part fault.message?)

def once (limits : Limits) (text : String) : Activity Unit := do
  if text = farewell then return () else respond limits text

def converse (limits : Limits) : Nat → Activity Unit
  | 0 => crash .inputEnded
  | lines + 1 => do
      write promptText
      let line ← readLine
      if line = farewell then return ()
      respond limits line
      converse limits lines

def session (limits : Limits) : Activity Unit := do
  converse limits ((← get).input.length + 1)

def runCommand (path : String) : String :=
  "run(\"" ++ path ++ "\")"

def runFile (limits : Limits) (path : String) : Activity Unit := do
  let _ ← Machine.run limits { name := sourceName, text := runCommand path } ""

end Shell

end Lingo
