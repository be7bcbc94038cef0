/-
Every visit has one outcome.

The places of a record are independent of one another, but at the end of a visit exactly one of
them is set.  In the machines that running scripts can lead to, the value in the record is a value
of the store, also if it is on its way outward from a return statement.
-/

import Lingo.Proofs.Eval.Formula
import Lingo.Proofs.Eval.Reached
import Lingo.Proofs.Eval.Records

namespace Lingo

namespace Outcome

variable {ε α : Type}

def places (outcome : Outcome ε α) : List Bool :=
  [outcome.value.isSome, outcome.error.isSome, outcome.returned.isSome, outcome.skipped,
    outcome.left]

def IsSingle (outcome : Outcome ε α) : Prop :=
  outcome.places.count true = 1

instance (outcome : Outcome ε α) : Decidable outcome.IsSingle :=
  inferInstanceAs (Decidable (outcome.places.count true = 1))

theorem isSingle_ofResult (result : Except Interrupt ObjectId) : (ofResult result).IsSingle := by
  cases result with
  | ok id => rfl
  | error interrupt => cases interrupt <;> rfl

-- Nothing in the record itself keeps two places from being set, or none.
example : ¬({ value := some 1, skipped := true } : Outcome Unit Nat).IsSingle ∧
    ¬({} : Outcome Unit Nat).IsSingle := by decide

end Outcome

/-- What a record holds as a value, or carries outward, is a value of a store. -/
def Record.IsReal (record : Record) (store : Store) : Prop :=
  ∀ id, record.value = some id ∨ record.returned = some id → store.IsValue id

theorem Record.isReal_ofResult {result : Except Interrupt ObjectId} {machine : Machine}
    (held : Eval.Fulfils (fun id after => after.store.IsValue id) result machine) :
    Record.IsReal (.ofResult result) machine.store := by
  intro id found
  cases result with
  | ok value =>
      rcases found with same | same
      · cases same
        exact held
      · cases same
  | error interrupt =>
      cases interrupt with
      | returned value =>
          rcases found with same | same
          · cases same
          · cases same
            exact held
      | _ => rcases found with same | same <;> cases same

theorem Mirrors.ends_iff {α : Type} {entry : Except Interrupt α → Record}
    {visit : Activity Record} {evaluation : Eval α} (mirrors : Mirrors entry visit evaluation)
    {before after : Machine} {record : Record} :
    visit.Ends before record after ↔
      ∃ outcome, evaluation.Ends before outcome after ∧ entry outcome = record := by
  have opened : visit.run.run before =
      (evaluation.run.run.run before |>.map (Except.map entry) id) := by
    rw [mirrors, ExceptT.run_map, StateT.run_map]
    rfl
  unfold Activity.Ends Eval.Ends Activity.Ends
  rw [opened]
  cases ran : evaluation.run.run.run before with
  | mk result reached =>
      constructor
      · intro ended
        cases result with
        | error cause => cases ended
        | ok outcome =>
            cases ended
            exact ⟨outcome, rfl, rfl⟩
      · rintro ⟨outcome, ended, rfl⟩
        cases ended
        rfl

theorem Evaluator.reliable_atDepth (limits : Limits) (depth : Nat) :
    (atDepth limits depth).Reliable True := by
  intro script context before sound tidy
  have careful : ∀ moment : Moment, Halts.nowhere moment = none → moment.LetsSlip limits → True :=
    fun _ _ _ => trivial
  have proceeds := Halts.proceeds_perform careful depth (.visit script context) before sound tidy
  rw [Halts.perform_nowhere] at proceeds
  exact proceeds

theorem Tree.Tidy.everywhere {σ : Type} {tree : Tree σ} (tidy : tree.Tidy) :
    tree.Everywhere Tree.Tidy := by
  induction tidy with
  | intro here inside ih => exact .intro (.intro here inside) ih

theorem Tree.Everywhere.imp {σ : Type} {property other : Tree σ → Prop} {tree : Tree σ}
    (everywhere : tree.Everywhere property) (entails : ∀ tree, property tree → other tree) :
    tree.Everywhere other := by
  induction everywhere with
  | intro here inside ih => exact .intro (entails _ here) ih

namespace Visitor

variable {limits : Limits} {depth : Nat} {machine after : Machine} {record : Record}

theorem records_atDepth (limits : Limits) (depth : Nat) (script : Script) (context : Context) :
    Records (atDepth limits depth script context)
      (Evaluator.atDepth limits depth script context) := by
  rw [atDepth_eq_visitor]
  rfl

theorem mirrors_atDepth (limits : Limits) (depth : Nat) (function : Object) (closure : Closure)
    (arguments : List ObjectId) (given : List (String × Slot)) :
    Mirrors Record.ofAnswer
      (executeFunction (atDepth limits depth) function closure arguments given)
      (Evaluator.callFunction (Evaluator.atDepth limits depth) function closure arguments
        given) := by
  rw [atDepth_eq_visitor]
  exact mirrors_executeFunction function closure arguments given

/-- From a sound machine on, a visit of a tidy tree ends with one outcome, which is real. -/
theorem single_of_visit (sound : machine.store.Sound) {script : Script} (tidy : script.Tidy)
    {context : Context}
    (ends : (atDepth limits depth script context).Ends machine record after) :
    record.IsSingle ∧ record.IsReal after.store := by
  have mirrors := records_atDepth limits depth script context
  obtain ⟨result, evaluated, rfl⟩ := mirrors.ends_iff.mp ends
  have held := (Evaluator.reliable_atDepth limits depth script context machine sound tidy).holds
    evaluated
  exact ⟨Outcome.isSingle_ofResult result, Record.isReal_ofResult held⟩

theorem single_of_execution (sound : machine.store.Sound) {function : Object} {closure : Closure}
    (tidy : closure.body.Tidy) {arguments : List ObjectId} {given : List (String × Slot)}
    (ends : (executeFunction (atDepth limits depth) function closure arguments given).Ends machine
      record after) : record.IsSingle ∧ record.IsReal after.store := by
  have mirrors := mirrors_atDepth limits depth function closure arguments given
  obtain ⟨result, called, rfl⟩ := mirrors.ends_iff.mp ends
  have held := (Evaluator.proceeds_callFunction (Evaluator.reliable_atDepth limits depth) sound
    function tidy arguments given).holds called
  cases result with
  | ok slot =>
      obtain ⟨id, rfl, value⟩ := held
      have fulfilled : Eval.Fulfils (fun id after => after.store.IsValue id) (.ok id) after := value
      exact ⟨Outcome.isSingle_ofResult (.ok id), Record.isReal_ofResult fulfilled⟩
  | error interrupt =>
      exact ⟨Outcome.isSingle_ofResult (.error interrupt), Record.isReal_ofResult held⟩

/-- Every visit has exactly one outcome.  Visits keep the records of the evaluations that run.  In
every machine that is reached, for every piece of a script that is read, and for every function of
the machine, the record in the end has exactly one place set, and a value there is a real one. -/
theorem visits_have_one_outcome (limits : Limits) (depth : Nat) :
    (∀ script context, atDepth limits depth script context =
      Outcome.ofResult <$> (Evaluator.atDepth limits depth script context).run) ∧
    (∀ function closure arguments given,
      executeFunction (atDepth limits depth) function closure arguments given =
        Record.ofAnswer <$> (Evaluator.callFunction (Evaluator.atDepth limits depth) function
          closure arguments given).run) ∧
    (∀ tokens tree stop, Grammar.run Grammar.script tokens = .ok (.success tree, stop) →
      tree.Everywhere fun node => ∀ context machine,
        Machine.Reached limits (fun _ => False) machine → ∀ record after,
          (atDepth limits depth node context).Ends machine record after →
            record.IsSingle ∧ record.IsReal after.store) ∧
    ∀ machine, Machine.Reached limits (fun _ => False) machine →
      ∀ id closure, (machine.store.object id).payload = .function closure →
        ∀ arguments given record after,
          (executeFunction (atDepth limits depth) (machine.store.object id) closure arguments
            given).Ends machine record after →
              record.IsSingle ∧ record.IsReal after.store := by
  refine ⟨records_atDepth limits depth, mirrors_atDepth limits depth, ?_, ?_⟩
  · intro tokens tree stop accepted
    have tidy : tree.Tidy := Grammar.tidy_of_run accepted
    apply tidy.everywhere.imp
    intro node tidyNode context machine reached record after ends
    exact single_of_visit reached.sound tidyNode ends
  · intro machine reached id closure known arguments given record after ends
    exact single_of_execution reached.sound (reached.sound.bodies id closure known) ends

def givesValue (machine : Machine) (id : ObjectId) : Bool :=
  match (machine.store.object id).payload with
  | .function closure =>
      match ((executeFunction (atDepth .standard 9) (machine.store.object id) closure
        [Store.trueId] []).run.run machine).1 with
      | .ok record => record.value.isSome
      | .error _ => false
  | _ => false

theorem ends_of_givesValue {id : ObjectId} (gives : givesValue machine id = true) :
    ∃ closure record after, (machine.store.object id).payload = .function closure ∧
      (executeFunction (atDepth .standard 9) (machine.store.object id) closure [Store.trueId]
        []).Ends machine record after ∧ record.value.isSome = true := by
  unfold givesValue at gives
  split at gives
  next closure known =>
    split at gives
    next record ended => exact ⟨closure, record, _, known, Prod.ext ended rfl, gives⟩
    next => cases gives
  next => cases gives

/-- A formula that divides by zero sets the place of the fault, and a function that gives its
argument back sets the place of the value. -/
theorem one_outcome_of_division_and_identity :
    (∃ tokens tree stop, ∃ node ∈ tree.parts, ∃ record after,
      Lexer.read { name := "<stdin>", text := Formula.divided.text } = .tokens tokens ∧
      Grammar.run Grammar.script tokens = .ok (.success tree, stop) ∧
      (atDepth .standard 9 node []).Ends (.initial {} []) record after ∧
      record.error.isSome = true ∧ record.IsSingle ∧ record.IsReal after.store) ∧
    ∃ closure record after,
      ((Machine.afterText "func f(x) -> x").store.object ⟨36⟩).payload = .function closure ∧
      (executeFunction (atDepth .standard 9) ((Machine.afterText "func f(x) -> x").store.object ⟨36⟩)
        closure [Store.trueId] []).Ends (Machine.afterText "func f(x) -> x") record after ∧
      record.value.isSome = true ∧ record.IsSingle ∧ record.IsReal after.store := by
  obtain ⟨recorded, _, visits, executions⟩ := visits_have_one_outcome .standard 9
  constructor
  · obtain ⟨tokens, tree, stop, lexed, parsed, written⟩ := Formula.divided.read_text "<stdin>"
    obtain ⟨span, node, rfl, same⟩ := Formula.script_of_list written
    have answers : Formula.Answers (Evaluator.atDepth .standard 9 node []) [] (.initial {} [])
        (.error .zeroDivisor) :=
      Formula.divided.answers_meaning same (by decide) [] (.initial {} [])
    obtain ⟨start, final, after, fails⟩ := answers
    have ends := (Mirrors.ends_iff (recorded node [])).mpr ⟨_, fails, rfl⟩
    cases visits tokens _ stop parsed with
    | intro here inside =>
        cases inside node List.mem_cons_self with
        | intro single _ =>
            exact ⟨tokens, _, stop, node, List.mem_cons_self, _, after, lexed, parsed, ends, rfl,
              single [] _ (.between (.start {} [])) _ after ends⟩
  · have gives : givesValue (Machine.afterText "func f(x) -> x") ⟨36⟩ = true := by decide +kernel
    obtain ⟨closure, record, after, known, ends, valued⟩ := ends_of_givesValue gives
    exact ⟨closure, record, after, known, ends, valued,
      executions _ (Machine.reached_afterText _) ⟨36⟩ closure known _ _ record after ends⟩

end Visitor

end Lingo
