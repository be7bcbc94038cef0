/-
Faults are never lost.

In a script without dictionaries and without values for optional parameters, a fault of any
evaluation or execution is the fault of the whole.  Nothing is done after it, and the machine
stays as it was when the fault arose.
-/

import Lingo.Proofs.Eval.Moments

namespace Lingo

variable {depth : Nat}

/-! ### Simple scripts -/

/-- A property holds of a tree and of all trees inside it. -/
inductive Tree.Everywhere {σ : Type} (property : Tree σ → Prop) : Tree σ → Prop where
  | intro {tree : Tree σ} (here : property tree)
      (inside : ∀ part ∈ tree.parts, Everywhere property part) : Everywhere property tree

/-- There are no dictionaries in a tree, and no calls that give values to optional parameters. -/
def Tree.Simple {σ : Type} (tree : Tree σ) : Prop :=
  tree.Everywhere fun inner => inner.isSimple

theorem Tree.Simple.here {σ : Type} {tree : Tree σ} (simple : tree.Simple) : tree.isSimple := by
  cases simple with
  | intro here inside => exact here

theorem Tree.Simple.inside {σ : Type} {tree : Tree σ} (simple : tree.Simple) :
    ∀ part ∈ tree.parts, part.Simple := by
  cases simple with
  | intro here inside => exact inside

/-- A job that evaluates a simple tree, or executes a function with a simple body, or one of the
language that loads no script. -/
def Job.Simple : Job → Prop
  | visit script _ => script.Simple
  | execution function _ _ =>
      (∀ closure, function.payload = .function closure → closure.body.Simple) ∧
        ¬function.payload.loads

def Moment.CallsSimple (moment : Moment) : Prop :=
  ∀ function arguments given, moment.job = .execution function arguments given →
    (Job.execution function arguments given).Simple

/-! ### Faithful evaluations -/

namespace Experiment

variable {α β : Type} {limits : Limits} {experiment : Experiment α} {before : Machine}

/-- If a job that is met ends with a fault, so does the whole, and with the same machine; all else
that is met is met in the course of that job or before it. -/
def Faithful (limits : Limits) (experiment : Experiment α) (before : Machine) : Prop :=
  ∀ moment fault after, experiment.Meets before (fun _ => False) moment →
    moment.Fails limits fault after →
      (experiment .nowhere).result before = (.ok (.error (.failed fault)), after) ∧
        ∀ other, experiment.Meets before (fun _ => False) other →
          moment.Meets limits other ∨ experiment.Meets before (· = moment) other

theorem faithful_alone (evaluation : Eval α) : Faithful limits (fun _ => evaluation) before :=
  fun _ _ _ meets => absurd meets (not_meets_alone evaluation)

variable {first : Experiment α} {next : Except Interrupt α → Experiment β}

theorem Faithful.followed (heeds : first.Heeds)
    (strict : ∀ fault, next (.error (.failed fault)) = fun _ => Eval.fail fault)
    (starts : first.Faithful limits before)
    (goesOn : ∀ outcome middle, (first .nowhere).result before = (.ok outcome, middle) →
      (next outcome).Faithful limits middle) :
    (first.followed next).Faithful limits before := by
  intro moment fault after meets fails
  rcases meets.cases_followed heeds with inFirst | ⟨outcome, middle, ignores, ended, inNext⟩
  · -- The first part failed, and a strict evaluation goes on with nothing but the fault.
    obtain ⟨failed, settled⟩ := starts moment fault after inFirst fails
    constructor
    · have failing := Eval.result_observe_ended failed fun outcome => next outcome .nowhere
      rw [strict fault] at failing
      exact failing
    · intro other metToo
      rcases metToo.cases_followed heeds with inFirstToo | ⟨outcome, middle, _, ended, inNext⟩
      · exact (settled other inFirstToo).imp id fun earlier => earlier.followed next
      · rw [failed] at ended
        cases ended
        rw [strict fault] at inNext
        exact absurd inNext (not_meets_alone _)
  · -- The rest failed, and all that the first part met came before.
    obtain ⟨failed, settled⟩ := goesOn outcome middle ended moment fault after inNext fails
    have unmet : ¬first.Meets before (fun _ => False) moment := ignores.not_meets (.inl rfl)
    constructor
    · exact (Eval.result_observe_ended ended fun outcome => next outcome .nowhere).trans failed
    · intro other metToo
      by_cases inFirst : first.Meets before (fun _ => False) other
      · exact .inr ((inFirst.before_unmet heeds unmet).followed next)
      · rcases metToo.cases_followed heeds with inFirstToo | ⟨_, _, _, endedToo, inNextToo⟩
        · exact absurd inFirstToo inFirst
        · rw [ended] at endedToo
          cases endedToo
          apply (settled other inNextToo).imp id
          intro earlier
          refine Ignores.meets_followed (heeds.ignores ?_) ended earlier
          intro third included
          rcases included with same | same
          · exact same ▸ inFirst
          · exact same ▸ unmet

theorem Faithful.entered {job : Job} {experiment : Experiment job.Answer}
    (opened : (fun halts : Halts => halts.perform limits depth job) = experiment.entered depth job)
    (faithful : experiment.Faithful limits before) :
    (experiment.entered depth job).Faithful limits before := by
  intro moment fault after meets fails
  by_cases same : moment = ⟨depth, job, before⟩
  · subst same
    constructor
    · rw [← opened]
      exact (Halts.result_nowhere ..).trans fails
    · intro other metToo
      left
      unfold Moment.Meets Moment.MeetsAvoiding
      rw [opened]
      exact metToo
  · have inside := (meets.cases_entered.resolve_left same).2
    obtain ⟨failed, settled⟩ := faithful moment fault after inside fails
    constructor
    · rw [result_entered rfl]
      exact failed
    · intro other metToo
      rcases metToo.cases_entered with itself | ⟨_, insideToo⟩
      · rw [itself]
        exact .inr meets_entered_self
      · exact (settled other insideToo).imp id fun earlier => earlier.entered (Ne.symm same)

end Experiment

/-! ### Jobs -/

theorem Orderly.faithful {α : Type} {policy : Policy} {evaluation : Helper → Eval α}
    (orderly : Orderly policy evaluation) (strict : policy.strict) {limits : Limits}
    (asked : ∀ job before, policy.asks job →
      (∀ moment, Moment.Meets limits ⟨depth, job, before⟩ moment → moment.CallsSimple) →
        Experiment.Faithful limits (fun halts => halts.perform limits depth job) before)
    (before : Machine)
    (calls : ∀ moment, Experiment.Meets (fun halts => evaluation (halts.perform limits depth))
      before (fun _ => False) moment → moment.CallsSimple) :
    Experiment.Faithful limits (fun halts => evaluation (halts.perform limits depth)) before := by
  refine orderly.course (fun experiment => experiment.Faithful limits) Moment.CallsSimple limits
    depth ?alone asked ?followed before calls
  case alone =>
    intro _ evaluation _ _
    exact Experiment.faithful_alone evaluation
  case followed =>
    intro _ _ _ _ _ heeds passesOn starts goesOn
    exact starts.followed heeds (passesOn strict) goesOn

/-- A simple job that executes only simple functions passes on every fault. -/
theorem Halts.faithful_perform (limits : Limits) (depth : Nat) (job : Job) (simple : job.Simple)
    (before : Machine)
    (calls : ∀ moment, Moment.Meets limits ⟨depth, job, before⟩ moment → moment.CallsSimple) :
    Experiment.Faithful limits (fun halts => halts.perform limits depth job) before := by
  induction depth, job using Job.induction generalizing before with
  | bottom script context =>
      have opened := perform_bottom limits script context
      rw [opened]
      exact .entered opened (Experiment.faithful_alone _)
  | execution depth visits function arguments given =>
      have orderly : Orderly (.executing True Tree.Simple) fun helper =>
          Evaluator.execute helper.evaluator function arguments given :=
        Evaluator.orderly_execute_strict function arguments given simple.1 simple.2
      have opened := perform_execution limits depth function arguments given
      rw [opened]
      refine .entered opened (orderly.faithful trivial ?_ before fun moment meets =>
        calls moment (meets.entered id))
      intro job middle asked met
      cases job with
      | visit script context => exact visits script context asked middle met
      | execution _ _ _ => exact asked.elim
  | visit depth jobs script context =>
      have orderly : Orderly (.visiting True Tree.Simple context) fun helper =>
          Evaluator.step limits helper.evaluator helper.executor script context :=
        Evaluator.orderly_step limits (fun _ => simple.here) simple.inside
      have opened := perform_visit limits depth script context
      rw [opened]
      refine .entered opened (orderly.faithful trivial ?_ before fun moment meets =>
        calls moment (meets.entered id))
      intro job middle asked met
      cases job with
      | visit script inner => exact jobs (.visit script inner) asked.1 middle met
      | execution function arguments given =>
          have itself : Moment.Meets limits ⟨depth, .execution function arguments given, middle⟩
              ⟨depth, .execution function arguments given, middle⟩ :=
            Experiment.meets_entered_self
          exact jobs _ (met _ itself function arguments given rfl) middle met

/-! ### Seeing that a script is simple -/

def Tree.isSimpleTo {σ : Type} : Nat → Tree σ → Bool
  | 0, _ => false
  | depth + 1, tree => tree.isSimple && tree.parts.all (isSimpleTo depth)

theorem Tree.simple_of_isSimpleTo {σ : Type} {tree : Tree σ} (seen : tree.isSimpleTo depth) :
    tree.Simple := by
  induction depth generalizing tree with
  | zero => cases seen
  | succ depth ih =>
      obtain ⟨here, inside⟩ := Bool.and_eq_true_iff.mp seen
      exact .intro here fun part among => ih (List.all_eq_true.mp inside part among)

def Payload.isSimpleTo (depth : Nat) : Payload → Bool
  | .function closure => closure.body.isSimpleTo depth
  | payload => !payload.loads

theorem Job.simple_of_isSimpleTo {function : Object} {arguments : List ObjectId}
    {given : List (String × Slot)} (seen : function.payload.isSimpleTo depth) :
    (Job.execution function arguments given).Simple := by
  constructor
  · intro closure known
    rw [known] at seen
    exact Tree.simple_of_isSimpleTo seen
  · intro loads
    cases known : function.payload with
    | builtin name =>
        rw [known] at seen loads
        have quiet : (!(Payload.builtin name).loads) = true := seen
        rw [loads] at quiet
        cases quiet
    | _ =>
        rw [known] at loads
        cases loads

def Halts.unlessSimple (depth : Nat) : Halts := fun moment =>
  match moment.job with
  | .visit _ _ => none
  | .execution function _ _ => if function.payload.isSimpleTo depth then none else some .tooDeep

theorem Halts.callsSimple {limits : Limits} {start : Moment}
    {outcome : Except Interrupt start.job.Answer} {machine : Machine}
    (ended : ((Halts.unlessSimple depth).perform limits start.depth start.job).result
      start.machine = (.ok outcome, machine)) (other : Moment) (meets : start.Meets limits other) :
    other.CallsSimple := by
  intro function arguments given known
  have free : Halts.unlessSimple depth other = none := Halts.not_met ended meets
  unfold Halts.unlessSimple at free
  rw [known] at free
  have seen : function.payload.isSimpleTo depth := by
    apply Classical.byContradiction
    intro unseen
    have stops := (if_neg unseen).symm.trans free
    cases stops
  exact Job.simple_of_isSimpleTo seen

/-! ### The main result -/

/-- Faults are never lost: if in the course of a simple job that executes only simple functions
any evaluation or execution ends with a fault, then the job itself ends with the same fault and
with the machine as it was then, and whatever else was done was done in the course of the failing
part or before it. -/
theorem fault_never_lost (limits : Limits) {start moment : Moment} (simple : start.job.Simple)
    (calls : ∀ other, start.Meets limits other → other.CallsSimple)
    (meets : start.Meets limits moment) {fault : Fault} {after : Machine}
    (fails : moment.Fails limits fault after) :
    start.Fails limits fault after ∧
      ∀ other, start.Meets limits other →
        moment.Meets limits other ∨ start.MeetsBefore limits other moment := by
  have faithful := Halts.faithful_perform limits start.depth start.job simple start.machine calls
  obtain ⟨failed, settled⟩ := faithful moment fault after meets fails
  constructor
  · exact (Halts.result_nowhere ..).symm.trans failed
  · exact settled

def Context.outermost : Context :=
  [{ name := "<program>", entered := none, table := some ⟨0⟩ }]

/-- Two statements, of which the first calls a function that divides by zero. -/
def Moment.callingDivision : Moment where
  depth := 4
  job := .visit (.list default [.call default (.access default "f" none) [] [],
    .number default (.int 2)]) .outermost
  machine :=
    { store :=
        { objects := ⟨#[{ payload := .function
                            { name := "f", parameters := [], optional := [], defaults := ⟨0⟩
                              body := .binary default .div (.number default (.int 1))
                                (.number default (.int 0))
                              yields := true }
                          context := some .outermost }]⟩
          tables := ⟨#[{ symbols := [("f", some ⟨0⟩)] }]⟩ }
      globals := ⟨0⟩ }

def Halts.atDivision : Halts
  | ⟨2, .visit (.binary _ .div (.number _ (.int 1)) (.number _ (.int 0))) _, _⟩ => some .tooDeep
  | _ => none

theorem fault_never_lost_in_call :
    ∃ moment fault after, Moment.callingDivision.Meets ⟨4, 1⟩ moment ∧
      moment.Fails ⟨4, 1⟩ fault after ∧ Moment.callingDivision.Fails ⟨4, 1⟩ fault after ∧
        ∀ other, Moment.callingDivision.Meets ⟨4, 1⟩ other →
          moment.Meets ⟨4, 1⟩ other ∨ Moment.callingDivision.MeetsBefore ⟨4, 1⟩ other moment := by
  have simple : Moment.callingDivision.job.Simple :=
    Tree.simple_of_isSimpleTo (rfl : Tree.isSimpleTo 3 _ = true)
  have calls : ∀ other, Moment.callingDivision.Meets ⟨4, 1⟩ other → other.CallsSimple :=
    Halts.callsSimple (rfl : ((Halts.unlessSimple 2).perform _ _ _).result _ = _)
  obtain ⟨moment, meets, stops, reached⟩ : ∃ moment,
      Moment.callingDivision.Meets ⟨4, 1⟩ moment ∧ Halts.atDivision moment = some .tooDeep ∧
        moment.machine = _ := Halts.exists_met rfl nofun
  obtain ⟨depth, job, machine⟩ := moment
  dsimp only at reached
  subst reached
  unfold Halts.atDivision at stops
  split at stops
  · rename_i same
    cases same
    refine ⟨_, _, _, meets, rfl, fault_never_lost ⟨4, 1⟩ simple calls meets rfl⟩
  · cases stops

end Lingo
