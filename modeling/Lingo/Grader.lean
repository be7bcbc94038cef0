/-
The grader of solutions.

Each solution is run on each test case, and a report counts the cases that came out as expected.
-/

import Lingo.Eval.Files
import Lingo.Json.Reader
import Lingo.Shell

namespace Lingo.Grader

open Activity

def home : String := "Challenges/Challenge1/"

def testsFile : String := home ++ "tests.json"

def reportFile : String := home ++ "results.txt"

def outputFile : String := "out.txt"

def expectedFile : String := "output.txt"

def callerFile : String := "result.kode"

structure Mistake where
  name : Json
  given : String
  expected : Json
deriving Inhabited

def agree (printedPath expectedPath : String) : Activity Bool := do
  let printed ← readLines printedPath
  let expected ← readLines expectedPath
  return (← settle (Text.judge printed expected)) == .same

def writeCaller (solution : String) (tests name : Json) : Activity Unit := do
  let opening := "imports(\"" ++ home ++ solution ++ "\")\n"
  writeFile callerFile opening
  let input ← settle ((tests.get name).bind (·.get (.text "input")))
  let shown ← settle input.display
  writeFile callerFile (opening ++ "print(solution(" ++ shown ++ "))")

def writeExpected (tests name : Json) : Activity Unit := do
  writeFile expectedFile ""
  let output ← settle ((tests.get name).bind (·.get (.text "output")))
  writeFile expectedFile (← settle output.display)

def firstLine (path : String) : Activity String := do
  return Text.strip ((← readLines path).headD "")

def runCase (limits : Limits) (solution : String) (tests name : Json) : Activity (Option Mistake) :=
  redirected outputFile do
    writeCaller solution tests name
    writeExpected tests name
    Shell.once limits (Shell.runCommand callerFile)
    saveOutput outputFile
    if ← agree outputFile expectedFile then return none
    let given ← firstLine outputFile
    let expected ← settle ((tests.get name).bind (·.get (.text "output")))
    return some { name, given, expected }

def reportMistake (mistake : Mistake) : Activity Unit := do
  print ("Test case: " ++ (← settle mistake.name.display))
  print ("Expected Answer: " ++ (← settle mistake.expected.display))
  print ("Given Answer: " ++ mistake.given)
  print ""

def shownMistakes : Nat := 3

def report (name : String) (right : Nat) (mistakes : List Mistake) : Activity Unit := do
  print ("\n" ++ name ++ ": " ++ toString right ++ "\n")
  if !mistakes.isEmpty then
    print "Wrong Answers:"
    (mistakes.take shownMistakes).forM reportMistake
  print (String.ofList (List.replicate 78 '='))

def grade (limits : Limits) (tests : Json) (solution : String) : Activity Unit := do
  let names ← settle tests.keys
  let results ← names.mapM (runCase limits solution tests)
  let mistakes := results.filterMap id
  report ((solution.splitOn ".").headD "") (results.length - mistakes.length) mistakes
  deleteFile outputFile
  deleteFile expectedFile
  deleteFile callerFile

def isSolution (folder : Folder) (name : String) : Bool :=
  match folder.find (home ++ name) with
  | .ok (.file _) => 1 < (name.splitOn "kode").length
  | _ => false

def run (limits : Limits) : Activity Unit := do
  let names ← askFolder (·.list home)
  let solutions := names.filter (isSolution (← get).folder)
  let tests ← settle (Json.read (← readFile testsFile))
  redirected reportFile (solutions.forM (grade limits tests))

end Lingo.Grader
