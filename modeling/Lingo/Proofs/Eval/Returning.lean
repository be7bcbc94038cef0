/-
Bodies that are expressions and bodies that return.

An evaluation that does not nest too deep comes out the same whatever depth is allowed.  A function
whose body is an expression, the value of which it yields, comes out as one with a single statement
that returns the expression; the statement lies two levels deeper.
-/

import Lingo.Proofs.Eval.Moments

namespace Lingo

/-! ### Deeper nesting -/

namespace Eval

variable {α : Type}

/-- One evaluation nests too deep, or it comes out as another does. -/
def Settles (shallow deep : Eval α) : Prop :=
  ∀ before, (shallow.result before).1 = .error .tooDeep ∨
    shallow.result before = deep.result before

theorem Settles.trans {first second third : Eval α} (start : first.Settles second)
    (rest : second.Settles third) : first.Settles third := by
  intro before
  rcases start before with tooDeep | same
  · exact .inl tooDeep
  · rw [same]
    exact rest before

end Eval

theorem Orderly.settles {policy : Policy} {α : Type} {evaluation : Helper → Eval α}
    (orderly : Orderly policy evaluation) (shallow deep : Helper)
    (helped : ∀ job, policy.asks job → (shallow job).Settles (deep job)) :
    (evaluation shallow).Settles (evaluation deep) := by
  induction orderly with
  | alone within => exact fun _ => .inr rfl
  | ask asked => exact helped _ asked
  | @followed _ _ first next _ _ _ starts goesOn =>
      intro before
      cases ended : (first shallow).result before with
      | mk outcome middle =>
          have both := starts before
          rw [ended] at both
          cases outcome with
          | error cause =>
              rw [Eval.result_observe_crashed ended]
              rcases both with tooDeep | same
              · cases tooDeep
                exact .inl rfl
              · exact .inr (Eval.result_observe_crashed same.symm _).symm
          | ok outcome =>
              have same := both.resolve_left fun tooDeep => by cases tooDeep
              rw [Eval.result_observe_ended ended, Eval.result_observe_ended same.symm]
              exact goesOn outcome middle

theorem settles_perform_succ (limits : Limits) (depth : Nat) (job : Job) :
    (job.perform limits depth).Settles (job.perform limits (depth + 1)) := by
  induction depth, job using Job.induction with
  | bottom script context => exact fun _ => .inl rfl
  | execution depth visits function arguments given =>
      apply (Evaluator.orderly_execute function arguments given).settles (Job.perform limits depth)
        (Job.perform limits (depth + 1))
      intro job asked
      cases job with
      | visit script context => exact visits script context
      | execution _ _ _ => exact asked.elim
  | visit depth jobs script context =>
      exact (Evaluator.orderly_step_any limits script context).settles (Job.perform limits depth)
        (Job.perform limits (depth + 1)) fun job _ => jobs job

theorem settles_perform (limits : Limits) {depth deeper : Nat} (le : depth ≤ deeper) (job : Job) :
    (job.perform limits depth).Settles (job.perform limits deeper) := by
  induction le with
  | refl => exact fun _ => .inr rfl
  | step _ ih => exact ih.trans (settles_perform_succ limits _ job)

/-! ### Two kinds of bodies -/

def Object.withBody (function : Object) (closure : Closure) (body : Script) (yields : Bool) : Object :=
  { function with payload := .function { closure with body, yields } }

namespace Evaluator

variable (limits : Limits) (outer inner : Span) (value : Script) (arguments : List ObjectId)

theorem atDepth_returning (depth : Nat) (context : Context) :
    atDepth limits (depth + 2) (.list outer [.giveBack inner (some value)]) context =
      atDepth limits depth value context >>= fun id => throw (.returned id) := by
  change ([Tree.giveBack inner (some value)].mapM fun item => atDepth limits (depth + 1) item context)
    >>= _ = _
  rw [List.mapM_cons]
  change ((atDepth limits depth value context >>= fun id => throw (.returned id)) >>= _) >>= _ = _
  simp only [bind_assoc]
  rfl

theorem conduct_returning (depth : Nat) (function : Object) (closure : Closure)
    (context : Context) :
    conduct (atDepth limits (depth + 2)) function
        { closure with body := .list outer [.giveBack inner (some value)], yields := false }
        arguments context =
      conduct (atDepth limits depth) function { closure with body := value, yields := true }
        arguments context := by
  unfold conduct
  refine bind_congr fun _ => bind_congr fun _ => bind_congr fun _ => bind_congr fun _ => ?_
  funext before
  have opened := atDepth_returning limits outer inner value depth context
  rw [Eval.bind_eq_observe] at opened
  -- The evaluation of the value comes out in the same way on both sides.
  cases ended : (atDepth limits depth value context).result before with
  | mk outcome middle =>
      cases outcome with
      | error cause =>
          have crashed := (congrArg (·.result before) opened).trans
            (Eval.result_observe_crashed ended _)
          exact (Eval.result_observe_crashed crashed _).trans
            (Eval.result_observe_crashed ended _).symm
      | ok outcome =>
          have came := (congrArg (·.result before) opened).trans (Eval.result_observe_ended ended _)
          refine Eq.trans ?_ (Eval.result_observe_ended ended _).symm
          cases outcome with
          | ok id => exact Eval.result_observe_ended came _
          | error interrupt =>
              refine (Eval.result_observe_ended came _).trans ?_
              cases interrupt <;> rfl

end Evaluator

open Evaluator in
/-- A function that yields the value of an expression, and one that is the same but for its body, a
single statement that returns the expression.  Their executions are equal, with values, faults,
signals, crashes and all changes of the machine, if the second may nest two levels deeper.  So
whatever depths are allowed, they come out the same on every machine unless one nests too deep. -/
theorem yielding_is_returning (limits : Limits) (function : Object) (closure : Closure)
    (value : Script) (outer inner : Span) (arguments : List ObjectId)
    (given : List (String × Slot)) :
    let yielding (depth : Nat) : Eval Slot := execute (atDepth limits depth)
      (function.withBody closure value true) arguments given
    let returning (depth : Nat) : Eval Slot := execute (atDepth limits depth)
      (function.withBody closure (.list outer [.giveBack inner (some value)]) false) arguments given
    (∀ depth, returning (depth + 2) = yielding depth) ∧
    ∀ depth other before, ((yielding depth).result before).1 ≠ .error .tooDeep →
      ((returning other).result before).1 ≠ .error .tooDeep →
      (yielding depth).result before = (returning other).result before := by
  intro yielding returning
  have shifted (depth : Nat) : returning (depth + 2) = yielding depth :=
    bind_congr fun context => bind_congr fun _ =>
      conduct_returning limits outer inner value arguments depth _ closure context
  refine ⟨shifted, ?_⟩
  intro depth other before yields returns
  have deeper (job : Job) {depth deeper : Nat} (le : depth ≤ deeper)
      (ends : ((job.perform limits depth).result before).1 ≠ .error .tooDeep) :
      (job.perform limits depth).result before = (job.perform limits deeper).result before :=
    (settles_perform limits le job before).resolve_left ends
  have first := deeper (.execution _ arguments given) (Nat.le_max_left depth other) yields
  have second := deeper (.execution _ arguments given)
    (Nat.le_trans (Nat.le_max_right depth other) (Nat.le_add_right _ 2)) returns
  exact first.trans (second.trans (congrArg (·.result before) (shifted _))).symm

open Evaluator in
/-- The body is a branch that returns a number by itself. -/
theorem yielding_is_returning_branch :
    let span : Span := default
    let value : Script :=
      .branch span [(.number span (.int 1), .giveBack span (some (.number span (.int 5))), false)] none
    let body (value : Script) (yields : Bool) : Object :=
      Object.withBody { payload := .plain, context := some [] } default value yields
    let before : Machine := { store := {}, globals := ⟨0⟩ }
    let limits : Limits := ⟨9, 9⟩
    (execute (atDepth limits 3) (body value true) [] []).result before =
        (execute (atDepth limits 9) (body (.list span [.giveBack span (some value)]) false) [] []).result
          before ∧
      ((execute (atDepth limits 3) (body value true) [] []).result before).1 =
        .ok (.ok (.object ⟨1⟩)) := by
  intro span value body before limits
  have yields : ((execute (atDepth limits 3) (body value true) [] []).result before).1 =
      .ok (.ok (.object ⟨1⟩)) := rfl
  have returns : ((execute (atDepth limits 9) (body (.list span [.giveBack span (some value)]) false)
      [] []).result before).1 = .ok (.ok (.object ⟨1⟩)) := rfl
  refine ⟨(yielding_is_returning limits { payload := .plain, context := some [] } default value span
    span [] []).2 3 9 before ?_ ?_, yields⟩
  · intro tooDeep
    cases yields.symm.trans tooDeep
  · intro tooDeep
    cases returns.symm.trans tooDeep

end Lingo
