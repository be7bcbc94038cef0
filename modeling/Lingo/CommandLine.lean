/-
The arguments with which a script file is run.

The first argument that is not an option is the file; two hyphens say that no options follow.
-/

import Lingo.Text.Digit

namespace Lingo.CommandLine

inductive Request where
  | script (path : String)
  | help
  | refused
deriving DecidableEq, Repr, Inhabited

inductive Argument where
  | positional
  | help
  | unknown
  | refused
deriving DecidableEq, Repr, Inhabited

def isDigit (char : Char) : Bool :=
  (Text.digitValue? char).isSome

def isNumber (chars : List Char) : Bool :=
  let body := if chars.getLast? = some '\n' then chars.dropLast else chars
  let whole := body.takeWhile isDigit
  match body.dropWhile isDigit with
  | [] => !whole.isEmpty
  | '.' :: fraction => !fraction.isEmpty && fraction.all isDigit
  | _ => false

def helpCluster : List Char → Argument
  | [] => .refused
  | ['h'] => .help
  | 'h' :: rest => helpCluster rest
  | _ => .refused

def helpName : List Char := "--help".toList

def hyphenated (chars : List Char) : Argument :=
  let name := chars.takeWhile (· ≠ '=')
  let given := chars.contains '='
  let other :=
    if isNumber (chars.drop 1) || chars.contains ' ' then .positional else Argument.unknown
  match chars with
  | ['-'] => .positional
  | '-' :: '-' :: _ =>
      if name.isPrefixOf helpName then (if given then .refused else .help) else other
  | ['-', 'h'] => .help
  | '-' :: 'h' :: '=' :: rest => helpCluster rest
  | '-' :: 'h' :: rest => helpCluster rest
  | _ => other

def classify (argument : String) : Argument :=
  match argument.toList with
  | '-' :: rest => hyphenated ('-' :: rest)
  | _ => .positional

def readFrom (file : Option String) : List String → Request
  | [] =>
      match file with
      | some path => .script path
      | none => .refused
  | argument :: rest =>
      if argument = "--" then
        match file.or rest.head? with
        | some path => .script path
        | none => .refused
      else
        match classify argument with
        | .positional => readFrom (file.or (some argument)) rest
        | .unknown => readFrom file rest
        | .help => .help
        | .refused => .refused

def read (arguments : List String) : Request :=
  readFrom none arguments

def helpText : String :=
  "usage: kode.py [-h] file\n\npositional arguments:\n  file\n\noptions:\n" ++
  "  -h, --help  show this help message and exit\n"

end Lingo.CommandLine
