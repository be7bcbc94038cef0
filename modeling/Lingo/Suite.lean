/-
The suite of examples.

Each example is a folder with a script and the output that is expected of it.
-/

import Lingo.Eval.Files
import Lingo.Shell

namespace Lingo.Suite

open Activity

def home : String := "examples/"

def outputFile : String := "out.txt"

def shownLines (lines : List String) : String :=
  "[" ++ ", ".intercalate (lines.map Text.quoted) ++ "]"

def complaint (opening path : String) (printed expected : List String) : Crash :=
  .complaint (opening ++ path ++ "\n" ++ shownLines printed ++ " " ++ shownLines expected)

def compareFiles (printedPath expectedPath : String) : Activity Unit := do
  let printed ← readLines printedPath
  let expected ← readLines expectedPath
  print (shownLines printed)
  print (shownLines expected)
  match ← settle (Text.judge printed expected) with
  | .same => return ()
  | .surplus => crash (complaint "Some test is wrong: " expectedPath printed expected)
  | .different => crash (complaint "Some line failed: " expectedPath printed expected)

def runExample (limits : Limits) (name : String) : Activity Unit :=
  redirected outputFile do
    Shell.once limits (Shell.runCommand (home ++ name ++ "/code.kode"))
    saveOutput outputFile
    compareFiles outputFile (home ++ name ++ "/output.txt")

def isExample (name : String) : Bool :=
  !name.toList.contains '.'

def run (limits : Limits) : Activity Unit := do
  let names ← askFolder (·.list "examples")
  (names.filter isExample).forM (runExample limits)
  deleteFile outputFile
  print "All tests passed!"

end Lingo.Suite
