/-
The command line.

The first argument names the program: the shell, the runner of script files, the suite of
examples, the grader, or the installer, which reads the fetched text from its input.
-/

import Lingo.CommandLine
import Lingo.Grader
import Lingo.Installer
import Lingo.Suite

namespace Lingo.Main

def endings : List String := [".kode", ".txt", ".json"]

def relative (home path : String) : String :=
  String.ofList (path.toList.drop (home.length + 1))

def loadFolder : IO Folder := do
  let home ← IO.currentDir
  let paths ← home.walkDir
  let mut files : List (String × String) := []
  for path in paths do
    let name := path.toString
    if endings.any (name.endsWith ·) then
      try files := (relative home.toString name, ← IO.FS.readFile path) :: files
      catch _ => pure ()
  return .ofFiles files

def storeFolder (before after : Folder) : IO Unit := do
  for (path, item) in after.items do
    match item with
    | .file content =>
        if before.items.lookup path ≠ some item then
          IO.FS.writeFile (Folder.pathText path) content
    | .folder => IO.FS.createDirAll (Folder.pathText path)
  for (path, item) in before.items do
    if item ≠ .folder ∧ after.items.lookup path = none then
      IO.FS.removeFile (Folder.pathText path)

def finish : Except Crash Unit → IO UInt32
  | .ok () => return 0
  | .error (.complaint message) => do
      IO.eprintln message
      return 1
  | .error _ => do
      IO.eprintln "The program ended abnormally."
      return 1

def perform (input : List String) (activity : Activity Unit) : IO UInt32 := do
  let folder ← loadFolder
  let (result, machine) := activity.run (.initial folder input)
  IO.print machine.output
  storeFolder folder machine.folder
  finish result

def nextLine (input : IO.FS.Stream) : IO (Option String) := do
  let line ← input.getLine
  if line.isEmpty then return none
  return some (if line.endsWith "\n" then String.ofList line.toList.dropLast else line)

partial def allLines (input : IO.FS.Stream) : IO (List String) := do
  match ← nextLine input with
  | some line => return line :: (← allLines input)
  | none => return []

/-- Responds to a line.  A script that asks for more input than there is starts again with
one more line; what it printed before is not shown twice. -/
partial def respond (stream : IO.FS.Stream) (machine : Machine) (line : String)
    (extra : List String) (shown : Nat) : IO (Except Crash Unit × Machine) := do
  let (result, after) :=
    (Shell.respond Limits.standard line).run { machine with input := extra, output := "" }
  IO.print (String.ofList (after.output.toList.drop shown))
  (← IO.getStdout).flush
  match result with
  | .error .inputEnded =>
      match ← nextLine stream with
      | some more => respond stream machine line (extra ++ [more]) after.output.length
      | none => return (result, after)
  | _ => return (result, after)

partial def converse (stream : IO.FS.Stream) (machine : Machine) : IO UInt32 := do
  IO.print Shell.promptText
  (← IO.getStdout).flush
  match ← nextLine stream with
  | none => finish (.error .inputEnded)
  | some line =>
      if line = Shell.farewell then return 0
      match ← respond stream machine line [] 0 with
      | (.ok (), after) => converse stream after
      | (.error cause, _) => finish (.error cause)

def runScript (arguments : List String) : IO UInt32 := do
  match CommandLine.read arguments with
  | .script path =>
      perform (← allLines (← IO.getStdin)) (Shell.runFile Limits.standard path)
  | .help => do
      IO.print CommandLine.helpText
      return 0
  | .refused => return 2

def installPackage (arguments : List String) : IO UInt32 := do
  let folder ← loadFolder
  let content := String.join ((← allLines (← IO.getStdin)).map (· ++ "\n"))
  match Installer.run folder arguments content with
  | .ok report =>
      IO.print report.output
      storeFolder folder report.folder
      return 0
  | .error cause => finish (.error cause)

end Lingo.Main

open Lingo in
def main (arguments : List String) : IO UInt32 := do
  match arguments with
  | ["shell"] => Main.converse (← IO.getStdin) (.initial (← Main.loadFolder) [])
  | "shell" :: text :: _ =>
      Main.perform (← Main.allLines (← IO.getStdin)) (Shell.once Limits.standard text)
  | "run" :: rest => Main.runScript rest
  | "examples" :: _ => Main.perform [] (Suite.run Limits.standard)
  | "grade" :: _ => Main.perform [] (Grader.run Limits.standard)
  | "install" :: rest => Main.installPackage rest
  | _ => do
      IO.eprintln "usage: shell [TEXT] | run FILE | examples | grade | install PACKAGE"
      return 2
