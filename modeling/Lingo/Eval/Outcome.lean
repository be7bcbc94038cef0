/-
The outcome of an evaluation as a record, with a place for each way in which it may end.
-/

import Lingo.Eval.Machine

namespace Lingo

structure Outcome (ε α : Type) where
  value : Option α := none
  error : Option ε := none
  returned : Option α := none
  skipped : Bool := false
  left : Bool := false
deriving DecidableEq, Repr, Inhabited

namespace Outcome

variable {ε α : Type}

def succeed (value : α) : Outcome ε α :=
  { value := some value }

def giveBack (value : α) : Outcome ε α :=
  { returned := some value }

def skip : Outcome ε α :=
  { skipped := true }

def leave : Outcome ε α :=
  { left := true }

def fail (error : ε) : Outcome ε α :=
  { error := some error }

def register (outcome part : Outcome ε α) : Outcome ε α :=
  { part with value := outcome.value }

def isInterrupted (outcome : Outcome ε α) : Bool :=
  outcome.error.isSome || outcome.returned.isSome || outcome.skipped || outcome.left

def ofResult : Except Interrupt ObjectId → Outcome Fault ObjectId
  | .ok id => succeed id
  | .error (.failed fault) => fail fault
  | .error (.returned id) => giveBack id
  | .error .skipped => skip
  | .error .left => leave

end Outcome

end Lingo
