/-
What a running script can do wrong.
-/

namespace Lingo

inductive Complaint where
  | illegalOperation
  | divisionByZero
  | elementOutOfBounds
  | undefinedName (name : String)
  | undefinedModule (name : String)
  | functionExists (name : String)
  | tooManyArguments (count : Nat) (function : String)
  | tooFewArguments (count : Nat) (function : String)
  | argumentKind (ordinal : Option Nat) (kind : String)
  | singleCharacter
  | startBeyondText
  | stopBeyondText
  | stopBeforeStart
  | insertBeyondList
  | setOutOfBounds
  | popOutOfBounds
  | getOutOfBounds
  | missingKey
  | scriptExtension
  | unloadable (path reason : String)
  | unfinished (path report : String)
  | unprintable
  | notInteger
  | notWhole
  | notPositive
deriving DecidableEq, Repr, Inhabited

namespace Complaint

def ordinalText : Option Nat → String
  | some 0 => "First argument"
  | some 1 => "Second argument"
  | some _ => "Third argument"
  | none => "Argument"

def details : Complaint → String
  | illegalOperation => "Illegal operation"
  | divisionByZero => "Division by zero"
  | elementOutOfBounds =>
      "Element at this index could not be retrieved form the list because the index is out of bounds"
  | undefinedName name => "'" ++ name ++ "' is not defined"
  | undefinedModule name => "'" ++ name ++ "' module is not defined"
  | functionExists name => "There is a function called '" ++ name ++ "' already defined"
  | tooManyArguments count function =>
      toString count ++ " too many args passed into '" ++ function ++ "'"
  | tooFewArguments count function =>
      toString count ++ " too few args passed into '" ++ function ++ "'"
  | argumentKind ordinal kind => ordinalText ordinal ++ " must be " ++ kind
  | singleCharacter => "Second argument must be a single character string"
  | startBeyondText => "Second argument exceeds the maximum string length"
  | stopBeyondText => "Third argument exceeds the maximum string length"
  | stopBeforeStart => "Third argument exceeds the start index value"
  | insertBeyondList => "Second argument must be less than length of list"
  | setOutOfBounds => "Could not set that value to the list because the index is out of bounds"
  | popOutOfBounds =>
      "Element at this index could not be removed from the list because the index is out of bounds"
  | getOutOfBounds =>
      "Element at this index could not be retrieved because the index is out of bounds"
  | missingKey => "Could not get any value because that key doesn't exist"
  | scriptExtension => "File extension must be .kode"
  | unloadable path reason => "Failed to load the file \"" ++ path ++ "\"\n" ++ reason
  | unfinished path report => "Failed to finish executing script \"" ++ path ++ "\"\n" ++ report
  | unprintable => "Cannot convert Function to String"
  | notInteger => "Argument can't be converted to Integer"
  | notWhole => "Argument must be a positive integer"
  | notPositive => "Argument must be a positive number"

end Complaint

end Lingo
