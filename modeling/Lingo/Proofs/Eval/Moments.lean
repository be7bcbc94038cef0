/-
What is met in the course of a job.

A job at some depth leads to jobs at the depth below; the body of a function is evaluated at
the depth of its execution.  So what holds of every job is shown by going from evaluations to
executions, and from both to the evaluations one level up.
-/

import Lingo.Proofs.Eval.Steps

namespace Lingo

/-! ### Executions -/

def Payload.loads : Payload → Bool
  | .builtin name => name = Builtin.run.name || name = Builtin.importAs.name
  | _ => false

theorem Builtin.name_of_ofName? {name : String} {builtin : Builtin}
    (found : Builtin.ofName? name = some builtin) : builtin.name = name := by
  have same := List.find?_some found
  exact of_decide_eq_true same

theorem Builtin.not_loads {name : String} (quiet : ¬(Payload.builtin name).loads)
    (builtin : Builtin) (found : Builtin.ofName? name = some builtin) : ¬builtin.Loads := by
  intro loads
  apply quiet
  rw [← Builtin.name_of_ofName? found]
  rcases loads with same | same
  · rw [same]
    rfl
  · rw [same]
    rfl

namespace Evaluator

open Activity

variable {strict : Prop} {bodies : Script → Prop} (function : Object) (arguments : List ObjectId)
  (given : List (String × Slot))

theorem ends_callContext (name : String) {function : Object} {outer : Context}
    (known : function.context = some outer) (before : Machine) :
    (callContext name function).Ends before
      ({ name := name, entered := function.start,
         table := some ⟨before.store.tables.size⟩ } :: outer)
      { before with store := (before.store.addTable { parent := outer.table }).2 } := by
  unfold callContext
  rw [known]
  rfl

theorem orderly_execute :
    Orderly (.executing False fun _ => True) fun helper =>
      execute helper.evaluator function arguments given := by
  unfold execute
  cases function.payload with
  | function closure =>
      apply (Orderly.alone fun _ => trivial).bind
      intro context
      apply (Orderly.alone fun _ => trivial).bind
      intro _
      have conducted : Orderly (.entered False (fun _ => True) context) fun helper =>
          conduct helper.evaluator function closure arguments context :=
        orderly_conduct function trivial arguments
      apply conducted.mono
      · exact fun _ _ _ => trivial
      · intro job asked
        cases job with
        | visit script inner => trivial
        | execution _ _ _ => exact asked
      · exact id
  | builtin name =>
      apply (Orderly.alone fun _ => trivial).bind
      intro context
      apply (orderly_serve_loading function name arguments context).mono
      · exact fun _ _ _ => trivial
      · intro job asked
        cases job with
        | visit script inner => trivial
        | execution _ _ _ => exact asked
      · exact id
  | _ => exact .crash _

/-- An execution that loads no script passes on every fault and evaluates at most the body. -/
theorem orderly_execute_strict
    (known : ∀ closure, function.payload = .function closure → bodies closure.body)
    (quiet : ¬function.payload.loads) :
    Orderly (.executing strict bodies) fun helper =>
      execute helper.evaluator function arguments given := by
  have included : ∀ context, ∀ job, (Policy.entered strict bodies context).asks job →
      (Policy.executing strict bodies).asks job := by
    intro context job asked
    cases job with
    | visit script inner => exact asked.1
    | execution _ _ _ => exact asked
  unfold execute
  cases payload : function.payload with
  | function closure =>
      apply (Orderly.alone fun _ => trivial).bind
      intro context
      apply (Orderly.alone fun _ => trivial).bind
      intro _
      apply (orderly_conduct function (known closure payload) arguments).mono
        (fun _ _ _ => trivial) (included context) id
  | builtin name =>
      apply (Orderly.alone fun _ => trivial).bind
      intro context
      rw [payload] at quiet
      apply (orderly_serve function (Builtin.not_loads quiet) arguments).mono
        (fun _ _ _ => trivial) (included context) id
  | _ => exact .crash _

end Evaluator

/-! ### All jobs -/

/-- What holds of every evaluation at depth zero, and goes over from the evaluations at a depth to
the executions there, and from both to the evaluations one level up, holds of every job. -/
theorem Job.induction {holds : Nat → Job → Prop}
    (bottom : ∀ script context, holds 0 (.visit script context))
    (execution : ∀ depth, (∀ script context, holds depth (.visit script context)) →
      ∀ function arguments given, holds depth (.execution function arguments given))
    (visit : ∀ depth, (∀ job, holds depth job) →
      ∀ script context, holds (depth + 1) (.visit script context)) :
    ∀ depth job, holds depth job := by
  have step : ∀ depth, (∀ script context, holds depth (.visit script context)) →
      ∀ job, holds depth job := by
    intro depth visits job
    cases job with
    | visit script context => exact visits script context
    | execution function arguments given =>
        exact execution depth visits function arguments given
  intro depth
  apply step
  induction depth with
  | zero => exact bottom
  | succ depth ih => exact visit depth (step depth ih)

namespace Halts

variable (limits : Limits)

theorem perform_nowhere (depth : Nat) (job : Job) :
    Halts.nowhere.perform limits depth job = job.perform limits depth := by
  have evaluates : ∀ depth, Halts.nowhere.evaluator limits depth =
      Evaluator.atDepth limits depth := by
    intro depth
    induction depth with
    | zero => rfl
    | succ depth ih =>
        funext script context
        change Evaluator.step limits (Halts.nowhere.evaluator limits depth)
          (Evaluator.execute (Halts.nowhere.evaluator limits depth)) script context = _
        rw [ih]
        rfl
  cases job with
  | visit script context => exact congrFun (congrFun (evaluates depth) script) context
  | execution function arguments given =>
      change Evaluator.execute (Halts.nowhere.evaluator limits depth) function arguments given = _
      rw [evaluates]
      rfl

theorem result_nowhere (depth : Nat) (job : Job) (before : Machine) :
    (Halts.nowhere.perform limits depth job).result before =
      (job.perform limits depth).result before := by
  rw [perform_nowhere]

/-! Each job first comes up, and then leaves other jobs to the depth below or to its own. -/

theorem perform_bottom (script : Script) (context : Context) :
    (fun halts : Halts => halts.perform limits 0 (.visit script context)) =
      Experiment.entered 0 (.visit script context) fun _ =>
        (liftM (Activity.crash .tooDeep : Activity ObjectId) : Eval ObjectId) :=
  rfl

theorem perform_visit (depth : Nat) (script : Script) (context : Context) :
    (fun halts : Halts => halts.perform limits (depth + 1) (.visit script context)) =
      Experiment.entered (depth + 1) (.visit script context) fun halts =>
        Evaluator.step limits (halts.perform limits depth).evaluator
          (halts.perform limits depth).executor script context :=
  rfl

theorem perform_execution (depth : Nat) (function : Object) (arguments : List ObjectId)
    (given : List (String × Slot)) :
    (fun halts : Halts => halts.perform limits depth (.execution function arguments given)) =
      Experiment.entered depth (.execution function arguments given) fun halts =>
        Evaluator.execute (halts.perform limits depth).evaluator function arguments given :=
  rfl

theorem heeds_perform (depth : Nat) (job : Job) :
    Experiment.Heeds fun halts => halts.perform limits depth job := by
  induction depth, job using Job.induction with
  | bottom script context =>
      rw [perform_bottom]
      exact (Experiment.heeds_alone _).entered
  | execution depth visits function arguments given =>
      have orderly := Evaluator.orderly_execute function arguments given
      rw [perform_execution]
      apply (orderly.heeds (fun halts => halts.perform limits depth) _).entered
      intro job asked
      cases job with
      | visit script context => exact visits script context
      | execution _ _ _ => exact asked.elim
  | visit depth jobs script context =>
      have orderly := Evaluator.orderly_step_any limits script context
      rw [perform_visit]
      exact (orderly.heeds (fun halts => halts.perform limits depth) fun job _ => jobs job).entered

/-! #### Trying out -/

variable {limits} {halts : Halts} {start : Moment}

theorem exists_met {cause : Crash} {machine : Machine}
    (halted : (halts.perform limits start.depth start.job).result start.machine =
      (.error cause, machine))
    (goesOn : (start.job.perform limits start.depth).result start.machine ≠
      (.error cause, machine)) :
    ∃ moment, start.Meets limits moment ∧ halts moment = some cause ∧ moment.machine = machine := by
  rcases heeds_perform limits start.depth start.job start.machine (halts · ≠ none) with
    ⟨moment, stops, meets⟩ | ignores
  · obtain ⟨known, stopsWith⟩ := Option.ne_none_iff_exists'.mp stops
    have ended := meets halts known stopsWith fun other stopsToo => .inr stopsToo
    have same := halted.symm.trans ended
    cases same
    exact ⟨moment, meets.mono fun _ never => never.elim, stopsWith, rfl⟩
  · have same := (ignores halts fun _ stops => stops).symm.trans halted
    exact absurd ((result_nowhere ..).symm.trans same) goesOn

theorem not_met {outcome : Except Interrupt start.job.Answer} {machine : Machine}
    (ended : (halts.perform limits start.depth start.job).result start.machine =
      (.ok outcome, machine)) {moment : Moment} (meets : start.Meets limits moment) :
    halts moment = none := by
  rcases heeds_perform limits start.depth start.job start.machine (halts · ≠ none) with
    ⟨other, stops, first⟩ | ignores
  · obtain ⟨known, stopsWith⟩ := Option.ne_none_iff_exists'.mp stops
    have halted := first halts known stopsWith fun other stopsToo => .inr stopsToo
    have same := halted.symm.trans ended
    cases same
  · cases stops : halts moment with
    | none => rfl
    | some cause =>
        have unmet : ¬start.Meets limits moment := ignores.not_meets (by simp [stops])
        exact absurd meets unmet

end Halts

/-! ### What holds in the course of an evaluation -/

namespace Orderly

variable {policy : Policy} {α : Type}

/-- What holds of activities within the footprint and of the jobs that are left to others, and
goes over from two parts to their sequence, holds of an orderly evaluation.  Of the jobs only
those matter in whose course nothing is met but what is met in the whole. -/
theorem course (holds : {β : Type} → Experiment β → Machine → Prop) (met : Moment → Prop)
    (limits : Limits) (depth : Nat)
    (alone : ∀ {β : Type} {evaluation : Eval β} (before : Machine),
      evaluation.Within policy.footprint → holds (fun _ => evaluation) before)
    (ask : ∀ job before, policy.asks job →
      (∀ moment, Moment.Meets limits ⟨depth, job, before⟩ moment → met moment) →
        holds (fun halts => halts.perform limits depth job) before)
    (followed : ∀ {β γ : Type} {first : Experiment β} {next : Except Interrupt β → Experiment γ}
      {before : Machine}, first.Heeds →
        (policy.strict → ∀ fault, next (.error (.failed fault)) = fun _ => Eval.fail fault) →
          holds first before →
            (∀ outcome middle, (first .nowhere).result before = (.ok outcome, middle) →
              holds (next outcome) middle) →
                holds (first.followed next) before)
    {evaluation : Helper → Eval α} (orderly : Orderly policy evaluation) (before : Machine)
    (all : ∀ moment, Experiment.Meets (fun halts => evaluation (halts.perform limits depth)) before
      (fun _ => False) moment → met moment) :
    holds (fun halts => evaluation (halts.perform limits depth)) before := by
  have helped : ∀ job, policy.asks job → Experiment.Heeds fun halts =>
      halts.perform limits depth job := fun job _ => Halts.heeds_perform limits depth job
  -- What a part meets the whole meets, so the assumption about the whole is passed down.
  induction orderly generalizing before with
  | alone within => exact alone before within
  | ask asked => exact ask _ before asked all
  | followed starts goesOn faithful first next =>
      have heeded := starts.heeds (fun halts => halts.perform limits depth) helped
      apply followed heeded
      · intro isStrict fault
        rw [faithful isStrict fault]
      · exact first before fun moment meets => all moment (meets.followed _)
      · intro outcome middle ended
        exact next outcome middle fun moment meets => all moment (meets.later heeded ended)

end Orderly

/-! ### How deep jobs are nested -/

def Job.bound (depth : Nat) : Job → Nat
  | visit _ _ => depth
  | execution _ _ _ => depth + 1

/-- Whatever an orderly evaluation meets is met in the course of a job that it leaves to others. -/
theorem Orderly.exists_asked {α : Type} {policy : Policy} {evaluation : Helper → Eval α}
    (orderly : Orderly policy evaluation) {limits : Limits} {depth : Nat} {before : Machine}
    {moment : Moment}
    (meets : Experiment.Meets (fun halts => evaluation (halts.perform limits depth)) before
      (fun _ => False) moment) :
    ∃ job middle, policy.asks job ∧ Moment.Meets limits ⟨depth, job, middle⟩ moment := by
  refine orderly.course
    (fun experiment before => ∀ moment, experiment.Meets before (fun _ => False) moment →
      ∃ job middle, policy.asks job ∧ Moment.Meets limits ⟨depth, job, middle⟩ moment)
    (fun _ => True) limits depth ?alone ?ask ?followed before (fun _ _ => trivial) moment meets
  case alone =>
    intro _ evaluation _ _ moment meets
    exact absurd meets (Experiment.not_meets_alone evaluation)
  case ask =>
    intro job before asks _ moment meets
    exact ⟨job, before, asks, meets⟩
  case followed =>
    intro _ _ first next before heeds _ starts goesOn moment meets
    rcases meets.cases_followed heeds with inFirst | ⟨outcome, middle, _, ended, inNext⟩
    · exact starts moment inFirst
    · exact goesOn outcome middle ended moment inNext

theorem Moment.Meets.nested {limits : Limits} {depth : Nat} {job : Job} {before : Machine}
    {moment : Moment} (meets : Moment.Meets limits ⟨depth, job, before⟩ moment) :
    moment = ⟨depth, job, before⟩ ∨ moment.depth < job.bound depth := by
  induction depth, job using Job.induction generalizing before moment with
  | bottom script context =>
      rcases Experiment.Meets.cases_entered meets with itself | ⟨_, inside⟩
      · exact .inl itself
      · exact absurd inside (Experiment.not_meets_alone _)
  | execution depth visits function arguments given =>
      rcases Experiment.Meets.cases_entered meets with itself | ⟨_, inside⟩
      · exact .inl itself
      · right
        obtain ⟨job, _, asks, met⟩ :=
          (Evaluator.orderly_execute function arguments given).exists_asked inside
        cases job with
        | visit script context =>
            rcases visits script context met with itself | deeper
            · exact itself ▸ Nat.lt_succ_self _
            · exact Nat.lt_succ_of_lt deeper
        | execution _ _ _ => exact asks.elim
  | visit depth jobs script context =>
      rcases Experiment.Meets.cases_entered meets with itself | ⟨_, inside⟩
      · exact .inl itself
      · right
        obtain ⟨job, _, _, met⟩ :=
          (Evaluator.orderly_step_any limits script context).exists_asked inside
        rcases jobs job met with itself | deeper
        · exact itself ▸ Nat.lt_succ_self _
        · cases job with
          | visit script context => exact Nat.lt_succ_of_lt deeper
          | execution _ _ _ => exact deeper

end Lingo
