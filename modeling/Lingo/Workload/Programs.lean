/-
Workloads for the suite of examples, the grader and the installer.
-/

import Lingo.Grader
import Lingo.Installer
import Lingo.Suite
import Lingo.Workload.Basic

namespace Lingo.Workload

open Activity

def exampleFiles (n : Nat) (expected : String) : List (String × String) :=
  let path := Suite.home ++ "case" ++ toString n
  [(path ++ "/code.kode", "print(" ++ toString n ++ ")\n"), (path ++ "/output.txt", expected)]

def withFiles {α : Type} (files : List (String × String)) (activity : Activity α) :
    Activity (Except Crash α) := do
  modify fun machine => { machine with folder := .ofFiles files }
  ExceptT.lift activity.run

def suiteAnswer (files : List (String × String)) : Activity Answer := do
  match ← withFiles files (Suite.run Limits.standard) with
  | .ok () =>
      let names ← askFolder (·.list "examples")
      return .series [.text "testing-ok", .series ((names.filter Suite.isExample).map .text)]
  | .error cause => return .ended cause

def testCase (n : Nat) : String :=
  "\"" ++ toString n ++ "\": \x7b\"input\": " ++ toString n ++ ", \"output\": " ++
    toString (n + 1) ++ "\x7d"

def gradingFiles (size : Nat) : List (String × String) :=
  [(Grader.home ++ "sol.kode", "func solution(x) -> x + 1\n"),
    (Grader.testsFile,
      "\x7b" ++ ", ".intercalate ((List.range (max 2 size)).map testCase) ++ "\x7d")]

def present (path : String) : Activity Answer := do
  return .flag ((← get).folder.find path).isOk

def gradingAnswers (size : Nat) : Activity (List Answer) := do
  match ← withFiles (gradingFiles size) (Grader.run Limits.standard) with
  | .ok () =>
      let tests ← settle (Json.read (← readFile Grader.testsFile))
      let names ← settle (do (← tests.keys).mapM Json.display)
      return [.series [.text "grading-ok", .series (names.map .text)],
        ← present Grader.outputFile, ← present Grader.callerFile, ← present Grader.reportFile]
  | .error cause => return [.ended cause]

def installAnswer (folder : Folder) (package : String) : Folder × Answer :=
  match Installer.run folder [package] "var k = 1\n" with
  | .ok report => (report.folder, .text ("kmm-ok:" ++ package))
  | .error cause => (folder, .ended cause)

def installAnswers (folder : Folder) : List String → List Answer
  | [] => []
  | package :: rest =>
      let (next, answer) := installAnswer folder package
      answer :: installAnswers next rest

def programs : Workload where
  size := 3
  run size := do
    let good := (List.range size).flatMap fun n => exampleFiles n (toString n)
    let suite ← suiteAnswer good
    let wrong ← suiteAnswer (exampleFiles 0 "other")
    let short ← suiteAnswer
      [(Suite.home ++ "case0/code.kode", "print(1)\nprint(2)\nprint(3)\n"),
        (Suite.home ++ "case0/output.txt", "1")]
    let grading ← gradingAnswers size
    return .series ([suite, wrong, short] ++ grading ++
      installAnswers {} ["unknownpkg", "mlKode", "mlKode", "mlKode", "unknownpkg"])

end Lingo.Workload
