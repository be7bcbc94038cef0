/-
Activities with files.
-/

import Lingo.Eval.Machine
import Lingo.Text.Lines

namespace Lingo

def PathFault.crash : PathFault → Crash
  | missing => .missingFile
  | occupied => .complaint "File exists"
  | notFolder => .notFolder
  | isFolder => .isFolder
  | tooLong => .complaint "File name too long"
  | nullByte => .unreadable

namespace Activity

def askFolder {α : Type} (question : Folder → Except PathFault α) : Activity α := do
  match question (← get).folder with
  | .ok a => return a
  | .error fault => crash fault.crash

def changeFolder (change : Folder → Except PathFault Folder) : Activity Unit := do
  let folder ← askFolder change
  modify fun machine => { machine with folder }

def readFile (path : String) : Activity String :=
  askFolder (·.read path)

def writeFile (path content : String) : Activity Unit :=
  changeFolder (·.write path content)

def deleteFile (path : String) : Activity Unit :=
  changeFolder (·.delete path)

def readLines (path : String) : Activity (List String) := do
  return Text.lines (← readFile path)

def saveOutput (path : String) : Activity Unit := do
  writeFile path (← get).output

def redirected {α : Type} (path : String) (activity : Activity α) : Activity α := do
  let before := (← get).output
  writeFile path ""
  modify fun machine => { machine with output := "" }
  let result ← ExceptT.lift activity.run
  saveOutput path
  modify fun machine => { machine with output := before }
  settle result

end Activity

end Lingo
