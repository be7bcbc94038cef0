/-
A folder of files, as a script sees it.

Paths are names divided by slashes.  Nothing outside the folder can be seen.
-/

import Lingo.Text.Quoted

namespace Lingo

inductive PathFault where
  | missing
  | occupied
  | notFolder
  | isFolder
  | tooLong
  | nullByte
deriving DecidableEq, Repr, Inhabited

def PathFault.reason (path : String) : PathFault → String
  | missing => "[Errno 2] No such file or directory: " ++ Text.quoted path
  | occupied => "[Errno 17] File exists: " ++ Text.quoted path
  | notFolder => "[Errno 20] Not a directory: " ++ Text.quoted path
  | isFolder => "[Errno 21] Is a directory: " ++ Text.quoted path
  | tooLong => "[Errno 36] File name too long: " ++ Text.quoted path
  | nullByte => "embedded null byte"

abbrev Path := List String

inductive Item where
  | file (content : String)
  | folder
deriving DecidableEq, Repr, Inhabited

structure Folder where
  items : List (Path × Item) := []
deriving DecidableEq, Repr, Inhabited

namespace Folder

def item? (folder : Folder) : Path → Option Item
  | [] => some .folder
  | path => folder.items.lookup path

def names (path : String) : List String :=
  path.splitOn "/"

def nameLimit : Nat := 255

def pathLimit : Nat := 4095

def walk (folder : Folder) : List String → Path → Except PathFault Path
  | [], path => .ok path
  | name :: rest, path =>
      match folder.item? path with
      | none => .error .missing
      | some (.file _) => .error .notFolder
      | some .folder =>
          if name = "" ∨ name = "." then walk folder rest path
          else if name = ".." then
            if path.isEmpty then .error .missing else walk folder rest path.dropLast
          else if nameLimit < name.utf8ByteSize then .error .tooLong
          else walk folder rest (path ++ [name])

def resolve (folder : Folder) (path : String) : Except PathFault Path :=
  if '\x00' ∈ path.toList then .error .nullByte
  else if pathLimit < path.utf8ByteSize then .error .tooLong
  else if path = "" ∨ path.toList.head? = some '/' then .error .missing
  else folder.walk (names path) []

def find (folder : Folder) (path : String) : Except PathFault Item := do
  match folder.item? (← folder.resolve path) with
  | some item => return item
  | none => throw .missing

def readRaw (folder : Folder) (path : String) : Except PathFault String := do
  match ← folder.find path with
  | .file content => return content
  | .folder => throw .isFolder

/-- Turns each line end, however it is written, into a single line feed. -/
def unifyLineEnds : List Char → List Char
  | [] => []
  | '\r' :: '\n' :: rest => '\n' :: unifyLineEnds rest
  | '\r' :: rest => '\n' :: unifyLineEnds rest
  | char :: rest => char :: unifyLineEnds rest

def read (folder : Folder) (path : String) : Except PathFault String := do
  return String.ofList (unifyLineEnds (← folder.readRaw path).toList)

def put (folder : Folder) (path : Path) (item : Item) : Folder :=
  if folder.items.any (·.1 = path) then
    { items := folder.items.map fun known => if known.1 = path then (path, item) else known }
  else { items := folder.items ++ [(path, item)] }

def openWay (folder : Folder) : List String → Path → Folder × Path
  | [], path => (folder, path)
  | name :: rest, path =>
      if name = "" ∨ name = "." then openWay folder rest path
      else if name = ".." then openWay folder rest path.dropLast
      else
        let inner := path ++ [name]
        let known := (folder.item? inner).isSome
        openWay (if known then folder else folder.put inner .folder) rest inner

def add (folder : Folder) (path content : String) : Folder :=
  let parts := names path
  let (folder, way) := folder.openWay parts.dropLast []
  folder.put (way ++ parts.getLast?.toList) (.file content)

def ofFiles (files : List (String × String)) : Folder :=
  files.foldl (fun folder (path, content) => folder.add path content) {}

def write (folder : Folder) (path content : String) : Except PathFault Folder := do
  let resolved ← folder.resolve path
  match folder.item? resolved with
  | some .folder => throw .isFolder
  | _ =>
      match folder.item? resolved.dropLast with
      | some .folder => return folder.put resolved (.file content)
      | some (.file _) => throw .notFolder
      | none => throw .missing

def delete (folder : Folder) (path : String) : Except PathFault Folder := do
  let resolved ← folder.resolve path
  match folder.item? resolved with
  | some (.file _) => return { items := folder.items.filter (·.1 ≠ resolved) }
  | some .folder => throw .isFolder
  | none => throw .missing

def makeFolder (folder : Folder) (path : String) : Except PathFault Folder := do
  let resolved ← folder.resolve path
  match folder.item? resolved with
  | some _ => throw .occupied
  | none =>
      match folder.item? resolved.dropLast with
      | some .folder => return folder.put resolved .folder
      | some (.file _) => throw .notFolder
      | none => throw .missing

def list (folder : Folder) (path : String) : Except PathFault (List String) := do
  let resolved ← folder.resolve path
  match folder.item? resolved with
  | some .folder =>
      let inside := folder.items.filterMap fun (way, _) =>
        if way.dropLast = resolved ∧ way ≠ [] then way.getLast? else none
      return inside.mergeSort (fun a b => decide (a ≤ b))
  | some (.file _) => throw .notFolder
  | none => throw .missing

def pathText (path : Path) : String :=
  "/".intercalate path

end Folder

end Lingo
