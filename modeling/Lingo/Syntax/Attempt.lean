/-
The record of an attempt to apply a grammar rule, which counts tokens that it has passed and
that are to be given back.
-/

namespace Lingo

structure Counts where
  latest : Nat := 0
  passed : Nat := 0
  returned : Nat := 0
deriving DecidableEq, Repr, Inhabited

namespace Counts

def step (counts : Counts) : Counts :=
  { counts with latest := counts.latest + 1, passed := counts.passed + 1 }

def absorb (counts part : Counts) : Counts :=
  { counts with latest := part.passed, passed := counts.passed + part.passed }

def forgo (counts part : Counts) : Counts :=
  { counts with returned := part.passed }

end Counts

structure Attempt (ε α : Type) where
  error : Option ε := none
  result : Option α := none
  counts : Counts := {}
deriving DecidableEq, Repr, Inhabited

namespace Attempt

variable {ε α : Type}

def step (attempt : Attempt ε α) : Attempt ε α :=
  { attempt with counts := attempt.counts.step }

def register (attempt part : Attempt ε α) : Attempt ε α :=
  { attempt with
    error := part.error.or attempt.error
    counts := attempt.counts.absorb part.counts }

/-- Takes a part over unless it has an error; then only notes what to give back. -/
def tryRegister (attempt part : Attempt ε α) : Attempt ε α :=
  if part.error.isSome then { attempt with counts := attempt.counts.forgo part.counts }
  else attempt.register part

def yielded (part : Attempt ε α) : Option α :=
  part.result

def tried (part : Attempt ε α) : Option α :=
  if part.error.isSome then none else part.result

def succeed (attempt : Attempt ε α) (result : α) : Attempt ε α :=
  { attempt with result := some result }

/-- Notes an error.  An earlier error stays if tokens have been passed: it is the more
telling one. -/
def fail (attempt : Attempt ε α) (error : ε) : Attempt ε α :=
  if attempt.error.isNone ∨ attempt.counts.passed = 0 then { attempt with error := some error }
  else attempt

end Attempt

end Lingo
