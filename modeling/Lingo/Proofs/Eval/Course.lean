/-
The course of an evaluation.

Each evaluation of a tree and each execution of a function comes up at a moment: at some depth of
nesting, on the machine as it then is.  Whether a moment is met in the course of another is found
by experiment: an evaluator is made to end abnormally at that moment, and everything ends
abnormally with it.
-/

import Lingo.Proofs.Eval.Footprint

namespace Lingo

variable {moments : Moment → Prop}

/-- Something to be done: a tree is evaluated in a context, or a function is executed with
arguments and with values for optional parameters. -/
inductive Job where
  | visit (script : Script) (context : Context)
  | execution (function : Object) (arguments : List ObjectId) (given : List (String × Slot))

@[reducible] def Job.Answer : Job → Type
  | visit _ _ => ObjectId
  | execution _ _ _ => Slot

structure Moment where
  depth : Nat
  job : Job
  machine : Machine

abbrev Helper := (job : Job) → Eval job.Answer

namespace Helper

def evaluator (helper : Helper) : Evaluator := fun script context =>
  helper (.visit script context)

def executor (helper : Helper) : Executor := fun function arguments given =>
  helper (.execution function arguments given)

end Helper

namespace Job

def perform (limits : Limits) (depth : Nat) : Helper
  | visit script context => Evaluator.atDepth limits depth script context
  | execution function arguments given =>
      Evaluator.execute (Evaluator.atDepth limits depth) function arguments given

end Job

/-! ### Experiments -/

/-- The moments at which an experiment makes the evaluator end abnormally, with the causes. -/
abbrev Halts := Moment → Option Crash

namespace Halts

/-- Ends abnormally if the moment at which a job comes up is one to halt at. -/
def guard {α : Type} (halts : Halts) (depth : Nat) (job : Job) (evaluation : Eval α) :
    Eval α := do
  match halts ⟨depth, job, ← get⟩ with
  | some cause => Activity.crash cause
  | none => evaluation

def evaluator (limits : Limits) (halts : Halts) : Nat → Evaluator
  | 0 => fun script context => halts.guard 0 (.visit script context) (Activity.crash .tooDeep)
  | depth + 1 => fun script context =>
      halts.guard (depth + 1) (.visit script context)
        (Evaluator.step limits (evaluator limits halts depth)
          (fun function arguments given =>
            halts.guard depth (.execution function arguments given)
              (Evaluator.execute (evaluator limits halts depth) function arguments given))
          script context)

def perform (limits : Limits) (halts : Halts) (depth : Nat) : Helper
  | .visit script context => halts.evaluator limits depth script context
  | .execution function arguments given =>
      halts.guard depth (.execution function arguments given)
        (Evaluator.execute (halts.evaluator limits depth) function arguments given)

def nowhere : Halts := fun _ => none

end Halts

/-- How an evaluation comes out: abnormally, or interrupted, or with a value; and the machine
as it is then. -/
def Eval.result {α : Type} (evaluation : Eval α) (before : Machine) :
    Except Crash (Except Interrupt α) × Machine :=
  evaluation.run.run.run before

abbrev Experiment (α : Type) := Halts → Eval α

namespace Experiment

variable {α β : Type}

/-- A moment is met before any that is to be avoided: whoever halts there, and elsewhere at most
where it is to be avoided, makes everything end right there and with the same cause. -/
def Meets (experiment : Experiment α) (before : Machine) (avoided : Moment → Prop)
    (moment : Moment) : Prop :=
  ∀ (halts : Halts) (cause : Crash), halts moment = some cause →
    (∀ other, halts other ≠ none → other = moment ∨ avoided other) →
      (experiment halts).result before = (.error cause, moment.machine)

def Ignores (experiment : Experiment α) (before : Machine) (moments : Moment → Prop) : Prop :=
  ∀ halts : Halts, (∀ other, halts other ≠ none → moments other) →
    (experiment halts).result before = (experiment .nowhere).result before

/-- Of any moments one is met first, or halting at them makes no difference. -/
def Heeds (experiment : Experiment α) : Prop :=
  ∀ (before : Machine) (moments : Moment → Prop),
    (∃ moment, moments moment ∧ experiment.Meets before moments moment) ∨
      experiment.Ignores before moments

end Experiment

namespace Moment

variable (limits : Limits)

/-- In the course of a moment's job another moment is met, before any that is to be avoided. -/
def MeetsAvoiding (start : Moment) (avoided : Moment → Prop) (moment : Moment) : Prop :=
  Experiment.Meets (fun halts => halts.perform limits start.depth start.job) start.machine avoided
    moment

def Meets (start moment : Moment) : Prop :=
  start.MeetsAvoiding limits (fun _ => False) moment

def MeetsBefore (start moment other : Moment) : Prop :=
  start.MeetsAvoiding limits (· = other) moment

def Fails (moment : Moment) (fault : Fault) (after : Machine) : Prop :=
  (moment.job.perform limits moment.depth).Ends moment.machine (.error (.failed fault)) after

end Moment

/-! ### Results of sequences -/

namespace Eval

variable {α β : Type} {before after : Machine} {evaluation : Eval α}

theorem result_observe_ended {outcome : Except Interrupt α}
    (ended : evaluation.result before = (.ok outcome, after)) (next : Except Interrupt α → Eval β) :
    (evaluation.observe >>= next).result before = (next outcome).result after := by
  unfold result at ended ⊢
  unfold observe
  simp only [ExceptT.run_bind, ExceptT.run_lift, bind_map_left, StateT.run_bind]
  rw [ended]
  rfl

theorem result_observe_crashed {cause : Crash}
    (crashed : evaluation.result before = (.error cause, after))
    (next : Except Interrupt α → Eval β) :
    (evaluation.observe >>= next).result before = (.error cause, after) := by
  unfold result at crashed ⊢
  unfold observe
  simp only [ExceptT.run_bind, ExceptT.run_lift, bind_map_left, StateT.run_bind]
  rw [crashed]
  rfl

theorem lift_bind (activity : Activity α) (next : α → Activity β) :
    (liftM (activity >>= next) : Eval β) = liftM activity >>= fun a => liftM (next a) := by
  exact monadLift_bind activity next

def unlessInterrupted (next : α → Eval β) : Except Interrupt α → Eval β
  | .ok a => next a
  | .error interrupt => throw interrupt

theorem bind_eq_observe (evaluation : Eval α) (next : α → Eval β) :
    evaluation >>= next = evaluation.observe >>= unlessInterrupted next := by
  apply ExceptT.ext
  unfold observe
  simp only [ExceptT.run_bind, ExceptT.run_lift, bind_map_left]
  congr 1
  funext outcome
  cases outcome <;> rfl

theorem result_bind_ended {a : α} (ended : evaluation.result before = (.ok (.ok a), after))
    (next : α → Eval β) : (evaluation >>= next).result before = (next a).result after := by
  rw [bind_eq_observe]
  exact result_observe_ended ended _

theorem ends_observe_iff {first : Eval α} {next : Except Interrupt α → Eval β}
    {result : Except Interrupt β} :
    (first.observe >>= next).Ends before result after ↔
      ∃ outcome middle, first.Ends before outcome middle ∧
        (next outcome).Ends middle result after := by
  constructor
  · intro ends
    cases ended : first.result before with
    | mk reached middle =>
        cases reached with
        | error cause =>
            have both := (result_observe_crashed ended next).symm.trans ends
            cases both
        | ok outcome =>
            exact ⟨outcome, middle, ended, (result_observe_ended ended next).symm.trans ends⟩
  · rintro ⟨outcome, middle, starts, goesOn⟩
    exact (result_observe_ended starts next).trans goesOn

theorem ends_bind_iff {first : Eval α} {next : α → Eval β} {result : Except Interrupt β} :
    (first >>= next).Ends before result after ↔
      ∃ outcome middle, first.Ends before outcome middle ∧
        (unlessInterrupted next outcome).Ends middle result after := by
  rw [bind_eq_observe]
  exact ends_observe_iff

theorem ends_pure_iff {a : α} {result : Except Interrupt α} :
    (pure a : Eval α).Ends before result after ↔ result = .ok a ∧ after = before := by
  constructor
  · intro ends
    cases ends
    exact ⟨rfl, rfl⟩
  · rintro ⟨rfl, rfl⟩
    rfl

end Eval

/-- The operator is applied on the machine that the second operand leaves. -/
theorem Evaluator.result_binaryValue {self : Evaluator} {left right : Script} {context : Context}
    {before middle after : Machine} {a b : ObjectId}
    (first : (self left context).Ends before (.ok a) middle)
    (second : (self right context).Ends middle (.ok b) after) (span : Span) (op : BinaryOp) :
    (binaryValue self span op left right context).result before =
      ((Activity.settle (Operation.binary after.store op (after.store.object a)
          (after.store.object b)) : Eval (Except Fault Operation.Yield)) >>= fun result =>
        Eval.ofFault result >>= fun yield =>
          liftM (yieldValue (after.store.object a).context yield) >>= claim span).result after := by
  unfold binaryValue operate
  simp only [bind_assoc]
  rw [Eval.result_bind_ended first, Eval.result_bind_ended second,
    Eval.result_bind_ended (Eval.Ends.lift (Activity.ends_object a after)),
    Eval.result_bind_ended (Eval.Ends.lift (Activity.ends_object b after)),
    Eval.result_bind_ended (Eval.Ends.lift (Activity.ends_store after))]

/-! ### Moments that are met -/

open Classical in
noncomputable def Halts.at (moment : Moment) (cause : Crash) : Halts := fun here =>
  if here = moment then some cause else none

open Classical in
noncomputable def Halts.atEither (moment other : Moment) : Halts := fun here =>
  if here = moment then some .tooDeep else if here = other then some .inputEnded else none

theorem Halts.eq_none {halts : Halts} (elsewhere : ∀ other, halts other ≠ none → moments other)
    {here : Moment} (outside : ¬moments here) : halts here = none := by
  cases halted : halts here with
  | none => rfl
  | some cause =>
      have stops : halts here ≠ none := by
        rw [halted]
        exact Option.some_ne_none cause
      exact absurd (elsewhere here stops) outside

theorem Halts.at_elsewhere {moment other : Moment} {cause : Crash}
    (halted : Halts.at moment cause other ≠ none) : other = moment := by
  unfold Halts.at at halted
  split at halted
  · assumption
  · exact absurd rfl halted

theorem Halts.atEither_elsewhere {moment other here : Moment}
    (halted : Halts.atEither moment other here ≠ none) : here = moment ∨ here = other := by
  unfold Halts.atEither at halted
  split at halted
  · left
    assumption
  · split at halted
    · right
      assumption
    · exact absurd rfl halted

namespace Experiment

variable {α β : Type} {experiment : Experiment α} {before middle : Machine}
  {avoided : Moment → Prop} {moment other : Moment}

theorem Meets.mono {fewer : Moment → Prop} (meets : experiment.Meets before avoided moment)
    (included : ∀ other, fewer other → avoided other) : experiment.Meets before fewer moment := by
  intro halts cause stops elsewhere
  apply meets halts cause stops
  intro other halted
  exact (elsewhere other halted).imp id (included other)

theorem Meets.unique {first second : Moment → Prop} (meets : experiment.Meets before first moment)
    (meetsOther : experiment.Meets before second other) (avoidsOther : first other)
    (avoids : second moment) : moment = other := by
  apply Classical.byContradiction
  intro different
  have here : Halts.atEither moment other moment = some .tooDeep := if_pos rfl
  have there : Halts.atEither moment other other = some .inputEnded := by
    unfold Halts.atEither
    rw [if_neg (Ne.symm different), if_pos rfl]
  have stopsHere := meets _ _ here fun third halted => by
    rcases Halts.atEither_elsewhere halted with same | same
    · exact .inl same
    · exact .inr (same ▸ avoidsOther)
  have stopsThere := meetsOther _ _ there fun third halted => by
    rcases Halts.atEither_elsewhere halted with same | same
    · exact .inr (same ▸ avoids)
    · exact .inl same
  rw [stopsHere] at stopsThere
  cases stopsThere

theorem Ignores.not_meets (ignores : experiment.Ignores before moments)
    (included : moments moment) :
    ¬experiment.Meets before avoided moment := by
  intro meets
  have same : ∀ cause, (experiment .nowhere).result before = (.error cause, moment.machine) := by
    intro cause
    rw [← ignores (.at moment cause) fun other halted => Halts.at_elsewhere halted ▸ included]
    apply meets _ cause (if_pos rfl)
    intro other halted
    exact .inl (Halts.at_elsewhere halted)
  have both := (same .tooDeep).symm.trans (same .inputEnded)
  cases both

theorem ignores_alone (evaluation : Eval α) (moments : Moment → Prop) :
    Ignores (fun _ => evaluation) before moments :=
  fun _ _ => rfl

theorem not_meets_alone (evaluation : Eval α) :
    ¬Meets (fun _ => evaluation) before avoided moment :=
  (ignores_alone evaluation fun _ => True).not_meets trivial

theorem heeds_alone (evaluation : Eval α) : Heeds fun _ => evaluation :=
  fun _ moments => .inr (ignores_alone evaluation moments)

theorem Heeds.ignores (heeds : experiment.Heeds)
    (unmet : ∀ moment, moments moment → ¬experiment.Meets before (fun _ => False) moment) :
    experiment.Ignores before moments := by
  rcases heeds before moments with ⟨moment, included, meets⟩ | ignores
  · exact absurd (meets.mono fun _ never => never.elim) (unmet moment included)
  · exact ignores

theorem Meets.before_unmet (heeds : experiment.Heeds)
    (meets : experiment.Meets before (fun _ => False) other)
    (unmet : ¬experiment.Meets before (fun _ => False) moment) :
    experiment.Meets before (· = moment) other := by
  rcases heeds before fun third => third = other ∨ third = moment with
    ⟨third, included, first⟩ | ignores
  · rcases included with same | same
    · rw [← same]
      exact first.mono fun _ avoids => .inr avoids
    · have met := first.mono fun _ never => False.elim never
      exact absurd (same ▸ met) unmet
  · exact absurd meets (ignores.not_meets (.inl rfl))

/-! #### Sequences -/

def followed (first : Experiment α) (next : Except Interrupt α → Experiment β) : Experiment β :=
  fun halts => (first halts).observe >>= fun outcome => next outcome halts

variable {first : Experiment α} {next : Except Interrupt α → Experiment β}

theorem Meets.followed (meets : first.Meets before avoided moment)
    (next : Except Interrupt α → Experiment β) :
    (first.followed next).Meets before avoided moment :=
  fun halts cause stops elsewhere =>
    Eval.result_observe_crashed (meets halts cause stops elsewhere) _

theorem Ignores.meets_followed
    (ignores : first.Ignores before fun other => other = moment ∨ avoided other)
    {outcome : Except Interrupt α} (ended : (first .nowhere).result before = (.ok outcome, middle))
    (meets : (next outcome).Meets middle avoided moment) :
    (first.followed next).Meets before avoided moment := by
  intro halts cause stops elsewhere
  have reached : (first halts).result before = (.ok outcome, middle) := by
    rw [ignores halts elsewhere, ended]
  exact (Eval.result_observe_ended reached _).trans (meets halts cause stops elsewhere)

theorem Ignores.followed_crashed (ignores : first.Ignores before moments) {cause : Crash}
    (crashed : (first .nowhere).result before = (.error cause, middle))
    (next : Except Interrupt α → Experiment β) : (first.followed next).Ignores before moments := by
  intro halts elsewhere
  have same := (ignores halts elsewhere).trans crashed
  exact (Eval.result_observe_crashed same _).trans (Eval.result_observe_crashed crashed _).symm

theorem Meets.cases_followed (heeds : first.Heeds)
    (meets : (first.followed next).Meets before avoided moment) :
    first.Meets before avoided moment ∨
      ∃ outcome middle, (first.Ignores before fun other => other = moment ∨ avoided other) ∧
        (first .nowhere).result before = (.ok outcome, middle) ∧
          (next outcome).Meets middle avoided moment := by
  -- Whichever of these moments the first part stops at, the whole stops there too, so it is the
  -- one that the whole meets.
  rcases heeds before fun other => other = moment ∨ avoided other with
    ⟨other, stopped, stops⟩ | ignores
  · left
    have same : other = moment := by
      rcases stopped with same | avoids
      · exact same
      · exact (stops.followed next).unique meets (.inl rfl) avoids
    subst same
    exact stops.mono fun _ avoids => .inr avoids
  · right
    cases ended : (first .nowhere).result before with
    | mk result middle =>
        cases result with
        | error cause =>
            exact absurd meets ((ignores.followed_crashed ended next).not_meets (.inl rfl))
        | ok outcome =>
            refine ⟨outcome, middle, ignores, rfl, ?_⟩
            intro halts cause stops elsewhere
            have reached := (ignores halts elsewhere).trans ended
            exact (Eval.result_observe_ended reached _).symm.trans
              (meets halts cause stops elsewhere)

theorem Meets.later (heeds : first.Heeds) {outcome : Except Interrupt α}
    (ended : (first .nowhere).result before = (.ok outcome, middle))
    (meets : (next outcome).Meets middle (fun _ => False) moment) :
    (first.followed next).Meets before (fun _ => False) moment := by
  rcases heeds before fun other => other = moment ∨ False with ⟨other, stopped, stops⟩ | ignores
  · have same : other = moment := stopped.resolve_right id
    subst same
    exact (stops.mono fun _ never => never.elim).followed next
  · exact ignores.meets_followed ended meets

theorem Heeds.followed (starts : first.Heeds) (goesOn : ∀ outcome, (next outcome).Heeds) :
    (first.followed next).Heeds := by
  intro before moments
  rcases starts before moments with ⟨moment, included, meets⟩ | ignores
  · exact .inl ⟨moment, included, meets.followed next⟩
  · cases ended : (first .nowhere).result before with
    | mk result middle =>
        cases result with
        | error cause => exact .inr (ignores.followed_crashed ended next)
        | ok outcome =>
            rcases goesOn outcome middle moments with ⟨moment, included, meets⟩ | ignoresToo
            · left
              refine ⟨moment, included, Ignores.meets_followed ?_ ended meets⟩
              intro halts elsewhere
              apply ignores halts
              intro other halted
              rcases elsewhere other halted with same | inside
              · exact same ▸ included
              · exact inside
            · right
              intro halts elsewhere
              have reached := (ignores halts elsewhere).trans ended
              calc (first.followed next halts).result before
                  = (next outcome halts).result middle := Eval.result_observe_ended reached _
                _ = (next outcome .nowhere).result middle := ignoresToo halts elsewhere
                _ = (first.followed next .nowhere).result before :=
                    (Eval.result_observe_ended ended fun outcome => next outcome .nowhere).symm

theorem bind_eq_followed (first : Experiment α) (next : α → Experiment β) :
    (fun halts => first halts >>= fun a => next a halts) = first.followed fun outcome halts =>
      Eval.unlessInterrupted (fun a => next a halts) outcome :=
  funext fun _ => Eval.bind_eq_observe _ _

theorem Meets.bind_later {first : Experiment α} {next : α → Experiment β} (heeds : first.Heeds)
    {a : α} (ended : (first .nowhere).result before = (.ok (.ok a), middle))
    (meets : (next a).Meets middle (fun _ => False) moment) :
    Meets (fun halts => first halts >>= fun a => next a halts) before (fun _ => False) moment := by
  rw [bind_eq_followed]
  exact Meets.later heeds ended meets

theorem Meets.after_alone {first : Eval α} {next : α → Experiment β}
    (meets : Meets (fun halts => first >>= fun a => next a halts) before avoided moment) :
    ∃ a middle, first.result before = (.ok (.ok a), middle) ∧
      (next a).Meets middle avoided moment := by
  have opened := bind_eq_followed (fun _ => first) next
  rw [opened] at meets
  rcases meets.cases_followed (heeds_alone first) with inFirst | ⟨outcome, middle, _, ended, inNext⟩
  · exact absurd inFirst (not_meets_alone first)
  · cases outcome with
    | ok a => exact ⟨a, middle, ended, inNext⟩
    | error interrupt => exact absurd inNext (not_meets_alone _)

/-! #### Entering a job -/

def entered (depth : Nat) (job : Job) (experiment : Experiment α) : Experiment α :=
  fun halts => halts.guard depth job (experiment halts)

variable {depth : Nat} {job : Job}

theorem result_entered {halts : Halts} (free : halts ⟨depth, job, before⟩ = none) :
    (experiment.entered depth job halts).result before = (experiment halts).result before := by
  change (match halts ⟨depth, job, before⟩ with
    | some cause => (liftM (Activity.crash cause : Activity α) : Eval α)
    | none => experiment halts).result before = _
  rw [free]

theorem meets_entered_self :
    (experiment.entered depth job).Meets before avoided ⟨depth, job, before⟩ := by
  intro halts cause stops elsewhere
  change (match halts ⟨depth, job, before⟩ with
    | some cause => (liftM (Activity.crash cause : Activity α) : Eval α)
    | none => experiment halts).result before = _
  rw [stops]
  rfl

theorem Meets.entered (meets : experiment.Meets before avoided moment)
    (free : ¬avoided ⟨depth, job, before⟩) :
    (experiment.entered depth job).Meets before avoided moment := by
  by_cases same : moment = ⟨depth, job, before⟩
  · rw [same]
    exact meets_entered_self
  · intro halts cause stops elsewhere
    rw [result_entered (Halts.eq_none elsewhere (not_or.mpr ⟨Ne.symm same, free⟩))]
    exact meets halts cause stops elsewhere

/-- What is met once a job has come up is the moment itself, or is met in its course. -/
theorem Meets.cases_entered (meets : (experiment.entered depth job).Meets before avoided moment) :
    moment = ⟨depth, job, before⟩ ∨
      ¬avoided ⟨depth, job, before⟩ ∧ experiment.Meets before avoided moment := by
  by_cases same : moment = ⟨depth, job, before⟩
  · exact .inl same
  · right
    have free : ¬avoided ⟨depth, job, before⟩ := by
      intro avoids
      have here : (experiment.entered depth job).Meets before (fun _ => True)
          ⟨depth, job, before⟩ := meets_entered_self
      exact same (meets.unique here avoids trivial)
    refine ⟨free, ?_⟩
    intro halts cause stops elsewhere
    rw [← meets halts cause stops elsewhere]
    exact (result_entered (Halts.eq_none elsewhere (not_or.mpr ⟨Ne.symm same, free⟩))).symm

theorem Heeds.entered (heeds : experiment.Heeds) : (experiment.entered depth job).Heeds := by
  intro before moments
  by_cases here : moments ⟨depth, job, before⟩
  · exact .inl ⟨_, here, meets_entered_self⟩
  · rcases heeds before moments with ⟨moment, included, meets⟩ | ignores
    · exact .inl ⟨moment, included, meets.entered here⟩
    · right
      intro halts elsewhere
      rw [result_entered (Halts.eq_none elsewhere here), ignores halts elsewhere]
      exact (result_entered rfl).symm

end Experiment

end Lingo
