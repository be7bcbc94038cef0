/-
Orderly evaluations.

An evaluation is orderly if it consists of activities of its own, which stay within a
footprint, and of jobs that it leaves to a helper.  How a job ends may be looked at before
the evaluation goes on.  A strict evaluation goes on with the fault if there was one.
-/

import Lingo.Proofs.Eval.Course

namespace Lingo

/-- What an orderly evaluation may do: what its own activities may change, which jobs it may
leave to others, and whether it must pass on every fault. -/
structure Policy where
  footprint : Footprint
  asks : Job → Prop
  strict : Prop

inductive Orderly (policy : Policy) : {α : Type} → (Helper → Eval α) → Prop where
  | alone {α : Type} {evaluation : Eval α} (within : evaluation.Within policy.footprint) :
      Orderly policy fun _ => evaluation
  | ask {job : Job} (asked : policy.asks job) : Orderly policy fun helper => helper job
  | followed {α β : Type} {first : Helper → Eval α}
      {next : Except Interrupt α → Helper → Eval β} (starts : Orderly policy first)
      (goesOn : ∀ outcome, Orderly policy (next outcome))
      (faithful : policy.strict → ∀ fault,
        next (.error (.failed fault)) = fun _ => Eval.fail fault) :
      Orderly policy fun helper =>
        (first helper).observe >>= fun outcome => next outcome helper

namespace Orderly

variable {policy : Policy} {α β γ : Type}

theorem bind {first : Helper → Eval α} {next : α → Helper → Eval β}
    (starts : Orderly policy first) (goesOn : ∀ a, Orderly policy (next a)) :
    Orderly policy fun helper => first helper >>= fun a => next a helper := by
  have opened : (fun helper => first helper >>= fun a => next a helper) = fun helper =>
      (first helper).observe >>= fun outcome =>
        Eval.unlessInterrupted (fun a => next a helper) outcome := by
    funext helper
    exact Eval.bind_eq_observe _ _
  have continued : ∀ outcome, Orderly policy fun helper =>
      Eval.unlessInterrupted (fun a => next a helper) outcome := by
    intro outcome
    cases outcome with
    | ok a => exact goesOn a
    | error interrupt => exact .alone (Eval.within_throw interrupt)
  rw [opened]
  exact starts.followed continued fun _ _ => rfl

theorem pure (a : α) : Orderly policy fun _ => (Pure.pure a : Eval α) :=
  .alone (Eval.within_pure a)

theorem fail (fault : Fault) : Orderly policy fun _ => (Eval.fail fault : Eval α) :=
  .alone (Eval.within_fail fault)

theorem crash (cause : Crash) :
    Orderly policy fun _ => (liftM (Activity.crash cause : Activity α) : Eval α) :=
  .alone (Eval.within_crash cause)

theorem act {activity : Activity α} (within : activity.Within policy.footprint) :
    Orderly policy fun _ => (liftM activity : Eval α) :=
  .alone (Eval.Within.lift within)

theorem settle (result : Except Crash α) :
    Orderly policy fun _ => (Activity.settle result : Eval α) :=
  .alone (Eval.within_settle result)

theorem part {part? : Option α} {next : α → Helper → Eval β}
    (goesOn : ∀ a, part? = some a → Orderly policy (next a)) :
    Orderly policy fun helper => Activity.part part? >>= fun a => next a helper := by
  cases part? with
  | none => exact crash .missingPart
  | some a => exact goesOn a rfl

theorem visit {script : Script} {context : Context} (asked : policy.asks (.visit script context)) :
    Orderly policy fun helper => helper.evaluator script context :=
  .ask asked

theorem execution {function : Object} {arguments : List ObjectId} {given : List (String × Slot)}
    (asked : policy.asks (.execution function arguments given)) :
    Orderly policy fun helper => helper.executor function arguments given :=
  .ask asked

theorem mapM {items : List γ} {each : γ → Helper → Eval β}
    (orderly : ∀ item ∈ items, Orderly policy (each item)) :
    Orderly policy fun helper => items.mapM fun item => each item helper := by
  induction items with
  | nil => exact pure []
  | cons item rest ih =>
      have opened : (fun helper => (item :: rest).mapM fun item => each item helper) = fun helper =>
          each item helper >>= fun value =>
            (rest.mapM fun item => each item helper) >>= fun values =>
              Pure.pure (value :: values) := by
        funext helper
        rw [List.mapM_cons]
      rw [opened]
      apply (orderly item (List.mem_cons_self ..)).bind
      intro value
      apply (ih fun other inside => orderly other (List.mem_cons_of_mem _ inside)).bind
      intro values
      exact pure _

theorem mono {wide : Policy} {evaluation : Helper → Eval α} (orderly : Orderly policy evaluation)
    (footprint : ∀ before after, policy.footprint.touches before after →
      wide.footprint.touches before after)
    (asks : ∀ job, policy.asks job → wide.asks job) (strict : wide.strict → policy.strict) :
    Orderly wide evaluation := by
  induction orderly with
  | alone within => exact .alone (Activity.Within.mono within footprint)
  | ask asked => exact .ask (asks _ asked)
  | followed _ _ faithful starts goesOn =>
      exact .followed starts goesOn fun isStrict => faithful (strict isStrict)

theorem heeds {evaluation : Helper → Eval α} (orderly : Orderly policy evaluation)
    (helpers : Halts → Helper)
    (helped : ∀ job, policy.asks job → Experiment.Heeds fun halts => helpers halts job) :
    Experiment.Heeds fun halts => evaluation (helpers halts) := by
  induction orderly with
  | alone within => exact Experiment.heeds_alone _
  | ask asked => exact helped _ asked
  | followed _ _ _ starts goesOn => exact starts.followed goesOn

end Orderly

end Lingo
