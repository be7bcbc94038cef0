/-
Abnormal ends.

A crash is no error that a script is told about: it ends the whole activity at once.
-/

namespace Lingo

inductive Crash where
  | operandKinds
  /-- A value lacks the part that was asked of it. -/
  | missingPart
  | unreadable
  | tooLarge
  /-- The divisor is zero, zero is raised to a negative power, or the angle of a complex power has
  no bound. -/
  | undefinedResult
  /-- A one-line loop over the elements of a value has no meaning. -/
  | inlineForEach
  | tooDeep
  | dictGrew
  | inputEnded
  | missingElement
  | missingKey
  | missingFile
  | notFolder
  | isFolder
  | malformedJson
  | complaint (message : String)
deriving DecidableEq, Repr, Inhabited

end Lingo
