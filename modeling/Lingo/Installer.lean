/-
The installer of script packages.

A package is a text that is stored as a script in a folder of its own.
-/

import Lingo.Folder
import Lingo.Shell

namespace Lingo.Installer

def version : String := "0.0.1"

def packages : List String := ["mlKode"]

def home : String := "./kode_modules"

def address (package : String) : String :=
  "https://centeltech.com/kodescript/modules/" ++ package ++ "/" ++ package ++ ".txt"

structure Report where
  output : String
  fetched : List String := []
  folder : Folder
deriving DecidableEq, Repr, Inhabited

def greeting (package : String) : String :=
  "KodeScript Version " ++ Lingo.version ++ " > KMM Version " ++ version ++ " → Installing " ++
    package ++ "...\n"

def unknownText (package : String) : String :=
  "Check Failed: No module named " ++ package ++ ". Check your spelling and try again.\n"

def occupiedText : String :=
  "FileError → Cannot Create file/folder as it already exists. " ++
    "Try deleting the file/folder and try again!\n"

def doneText : String := "Done!\n"

def makeHome (folder : Folder) : Except PathFault Folder :=
  match folder.find home with
  | .ok .folder => .ok folder
  | _ => folder.makeFolder home

def keep (folder : Folder) (package content : String) : Folder × Except PathFault Folder :=
  match folder.makeFolder (home ++ "/" ++ package) with
  | .error fault => (folder, .error fault)
  | .ok made => (made, made.write (home ++ "/" ++ package ++ "/" ++ package ++ ".kode") content)

def install (folder : Folder) (package content : String) : Report :=
  let start := greeting package
  if package ∈ packages then
    match makeHome folder with
    | .error _ => { output := start ++ occupiedText, folder }
    | .ok ready =>
        let fetched := [address package]
        match keep ready package content with
        | (_, .ok stored) => { output := start ++ doneText, fetched, folder := stored }
        | (left, .error _) => { output := start ++ occupiedText, fetched, folder := left }
  else { output := start ++ unknownText package, folder }

def run (folder : Folder) (arguments : List String) (content : String) : Except Crash Report :=
  match arguments with
  | [] => .error .missingElement
  | package :: _ => .ok (install folder package content)

end Lingo.Installer
