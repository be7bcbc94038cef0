/-
What an import reports.

Loading a script can come to nothing at several stages, and each of them is a complaint of the
loading.  An import passes over what the loading comes to, so it succeeds at every stage just as
it does after a script that ran to its end.
-/

import Lingo.Proofs.Eval.Bodies
import Lingo.Proofs.Eval.Imports

namespace Lingo

namespace Evaluator

open Activity

/-- The context of a script that is run in the table of a module, or in the global one if the name
is empty. -/
def scriptContext (machine : Machine) (moduleName : String) : Context :=
  [{ name := "<program>", entered := none
     table := if moduleName = "" then some machine.globals
       else machine.modules.find? fun id => (machine.store.table id).name = some moduleName }]

/-- What running a text comes to, by the stage at which it ends. -/
inductive Runs (self : Evaluator) (source : Source) (moduleName : String) (before : Machine) :
    Except Fault (Option ObjectId) → Machine → Prop where
  | refused {cause : LexCause} {start stop : Position}
      (unread : Lexer.read source = .refused cause start stop) :
      Runs self source moduleName before (.error (.ofText cause start stop)) before
  | rejected {tokens : List Placed} {fault : SyntaxFault} {stop : Reading}
      (lexed : Lexer.read source = .tokens tokens)
      (unparsed : Grammar.run Grammar.script tokens = .ok (.failure fault, stop)) :
      Runs self source moduleName before (.error (.ofSyntax fault)) before
  | evaluated {tokens : List Placed} {tree : Script} {stop : Reading} {after : Machine}
      {outcome : Except Interrupt ObjectId} (lexed : Lexer.read source = .tokens tokens)
      (parsed : Grammar.run Grammar.script tokens = .ok (.success tree, stop))
      (ended : (self tree (scriptContext before moduleName)).Ends before outcome after) :
      Runs self source moduleName before (concluded outcome) after

/-- What loading a script comes to: a complaint, or nothing if the script ran to its end. -/
inductive Loads (self : Evaluator) (path moduleName : String) (before : Machine) :
    Option Complaint → Machine → Prop where
  | misnamed (ending : isScriptPath path = false) :
      Loads self path moduleName before (some .scriptExtension) before
  | unreadable (ending : isScriptPath path = true) {fault : PathFault}
      (unread : before.folder.read path = .error fault) :
      Loads self path moduleName before (some (.unloadable path (fault.reason path))) before
  | unfinished (ending : isScriptPath path = true) {content : String}
      (read : before.folder.read path = .ok content) {fault : Fault} {report : String}
      {after : Machine}
      (fails : Runs self { name := path, text := content } moduleName before (.error fault) after)
      (shown : fault.message? = some report) :
      Loads self path moduleName before (some (.unfinished path report)) after
  | finished (ending : isScriptPath path = true) {content : String}
      (read : before.folder.read path = .ok content) {value : Option ObjectId} {after : Machine}
      (runs : Runs self { name := path, text := content } moduleName before (.ok value) after) :
      Loads self path moduleName before none after

end Evaluator

/-- What a call comes to that has a complaint, or none. -/
def Invocation.verdict (call : Invocation) : Option Complaint → Except Interrupt Slot
  | some complaint =>
      .error (.failed (Operation.fault complaint call.start call.stop (some call.context)))
  | none => .ok Library.null

theorem Activity.ends_bind_iff {α β : Type} {first : Activity α} {next : α → Activity β}
    {before after : Machine} {b : β} :
    (first >>= next).Ends before b after ↔
      ∃ a middle, first.Ends before a middle ∧ (next a).Ends middle b after := by
  constructor
  · intro ends
    rcases run_bind_cases ends with ⟨_, _, same⟩ | parts
    · cases same
    · exact parts
  · rintro ⟨a, middle, starts, goesOn⟩
    exact starts.bind goesOn

namespace Evaluator

open Activity

variable {self : Evaluator} {before after : Machine}

theorem ends_runSource_evaluated_iff {source : Source} {tokens : List Placed} {tree : Script}
    {stop : Reading} (lexed : Lexer.read source = .tokens tokens)
    (parsed : Grammar.run Grammar.script tokens = .ok (.success tree, stop)) (moduleName : String)
    {result : Except Fault (Option ObjectId)} :
    (runSource self source moduleName).Ends before result after ↔
      ∃ outcome, (self tree (scriptContext before moduleName)).Ends before outcome after ∧
        result = concluded outcome := by
  have settled : (settle (Grammar.run Grammar.script tokens) : Activity _) =
      pure (.success tree, stop) := by
    rw [parsed]
    rfl
  unfold runSource scriptContext
  rw [lexed]
  dsimp only
  rw [settled, pure_bind]
  dsimp only
  -- The global table is found without a look at the modules; from there on both go the same way.
  split
  case' isTrue => simp only [pure_bind]
  all_goals
    constructor
    · intro ended
      obtain ⟨_, _, found, ended⟩ := ends_bind_iff.mp ended
      cases found
      obtain ⟨outcome, _, ends, last⟩ := ends_bind_iff.mp ended
      refine ⟨outcome, ?_⟩
      cases outcome with
      | ok id =>
          cases last
          exact ⟨ends, rfl⟩
      | error interrupt =>
          cases interrupt <;>
          · cases last
            exact ⟨ends, rfl⟩
    · rintro ⟨outcome, ends, rfl⟩
      refine Activity.Ends.bind rfl (Activity.Ends.bind ends ?_)
      cases outcome with
      | ok id => rfl
      | error interrupt => cases interrupt <;> rfl

theorem ends_runSource_iff {source : Source} {moduleName : String}
    {result : Except Fault (Option ObjectId)} :
    (runSource self source moduleName).Ends before result after ↔
      Runs self source moduleName before result after := by
  constructor
  · intro ended
    cases lexed : Lexer.read source with
    | crashed cause =>
        unfold runSource at ended
        rw [lexed] at ended
        cases ended
    | refused cause start stop =>
        unfold runSource at ended
        rw [lexed] at ended
        cases ended
        exact .refused lexed
    | tokens tokens =>
        cases parsed : Grammar.run Grammar.script tokens with
        | error cause =>
            unfold runSource at ended
            rw [lexed] at ended
            dsimp only at ended
            rw [parsed] at ended
            cases ended
        | ok reply =>
            obtain ⟨reply, stop⟩ := reply
            cases reply with
            | failure fault =>
                unfold runSource at ended
                rw [lexed] at ended
                dsimp only at ended
                rw [parsed] at ended
                cases ended
                exact .rejected lexed parsed
            | success tree =>
                obtain ⟨outcome, ends, rfl⟩ :=
                  (ends_runSource_evaluated_iff lexed parsed moduleName).mp ended
                exact .evaluated lexed parsed ends
  · intro runs
    cases runs with
    | refused unread =>
        unfold runSource
        rw [unread]
        rfl
    | rejected lexed unparsed =>
        unfold runSource
        rw [lexed]
        exact Activity.Ends.bind (ends_settle unparsed before) rfl
    | evaluated lexed parsed ended =>
        exact (ends_runSource_evaluated_iff lexed parsed moduleName).mpr ⟨_, ended, rfl⟩

/-- Loading a script comes to a complaint at one of the stages, or the script runs to its end, unless
it ends abnormally. -/
theorem ends_loadScript_iff (call : Invocation) {path : ObjectId} {text : String}
    (named : before.store.text? path = some text) (moduleName : String)
    {result : Except Interrupt Slot} :
    (loadScript self call path moduleName).Ends before result after ↔
      ∃ complaint?, Loads self text moduleName before complaint? after ∧
        result = call.verdict complaint? := by
  have taken := Library.ends_text call named none
  constructor
  · intro ended
    obtain ⟨_, _, starts, ended⟩ := Eval.ends_bind_iff.mp ended
    cases taken.symm.trans starts
    dsimp only [Eval.unlessInterrupted] at ended
    cases ending : isScriptPath text with
    | false =>
        rw [ending] at ended
        cases ended
        exact ⟨_, .misnamed ending, rfl⟩
    | true =>
        rw [ending] at ended
        obtain ⟨_, _, got, ended⟩ := Eval.ends_bind_iff.mp ended
        cases got
        dsimp only [Eval.unlessInterrupted] at ended
        cases read : before.folder.read text with
        | error fault =>
            rw [read] at ended
            cases ended
            exact ⟨_, .unreadable ending read, rfl⟩
        | ok content =>
            rw [read] at ended
            obtain ⟨_, reached, lifted, ended⟩ := Eval.ends_bind_iff.mp ended
            obtain ⟨ran, rfl, runs⟩ := ends_lift_iff.mp lifted
            rw [ends_runSource_iff] at runs
            cases ran with
            | ok value =>
                cases ended
                exact ⟨none, .finished ending read runs, rfl⟩
            | error fault =>
                dsimp only [Eval.unlessInterrupted] at ended
                cases shown : fault.message? with
                | none =>
                    rw [shown] at ended
                    cases ended
                | some report =>
                    rw [shown] at ended
                    cases ended
                    exact ⟨_, .unfinished ending read runs shown, rfl⟩
  · rintro ⟨complaint?, loads, rfl⟩
    apply Eval.Ends.bind taken
    cases loads with
    | misnamed ending =>
        rw [ending]
        exact ends_fail call _ before
    | unreadable ending unread =>
        rw [ending]
        apply Eval.Ends.bind rfl
        rw [unread]
        exact ends_fail call _ before
    | unfinished ending read fails shown =>
        rw [ending]
        apply Eval.Ends.bind rfl
        rw [read]
        apply Eval.Ends.bind (Eval.Ends.lift (ends_runSource_iff.mpr fails))
        dsimp only
        rw [shown]
        exact Eval.Ends.bind rfl (ends_fail call _ after)
    | finished ending read runs =>
        rw [ending]
        apply Eval.Ends.bind rfl
        rw [read]
        exact Eval.Ends.bind (Eval.Ends.lift (ends_runSource_iff.mpr runs)) rfl

theorem ends_passedOver_iff {α β : Type} {evaluation : Eval α} {b : β}
    {outcome : Except Interrupt β} :
    (evaluation.observe >>= fun _ => (pure b : Eval β)).Ends before outcome after ↔
      outcome = .ok b ∧ ∃ result, evaluation.Ends before result after := by
  rw [Eval.ends_observe_iff]
  constructor
  · rintro ⟨result, middle, ends, goesOn⟩
    cases goesOn
    exact ⟨rfl, result, ends⟩
  · rintro ⟨rfl, result, ends⟩
    exact ⟨result, after, ends, rfl⟩

end Evaluator

open Evaluator in
/-- An import passes over what becomes of its script.  Loading the script on the machine with the new
module comes to a complaint at one of several stages, or the script runs to its end; in all of these
cases the import ends with the constant for no value, and it never ends in another way. -/
theorem import_passes_over_failure (self : Evaluator) {function : Object} {outer : Context}
    (isImport : function.payload = .builtin "importAs") (claimed : function.context = some outer)
    {before : Machine} {path name : ObjectId} {text moduleName : String}
    (pathText : before.store.text? path = some text)
    (nameText : before.store.text? name = some moduleName) (given : List (String × Slot)) :
    ∃ (call : Invocation) (entered : Machine), before.Untouched entered ∧
      entered.modules = before.modules ∧
      (∀ result after,
        (loadScript self call path moduleName).Ends (withModule entered moduleName) result after ↔
          ∃ complaint?, Loads self text moduleName (withModule entered moduleName) complaint? after ∧
            result = call.verdict complaint?) ∧
      ∀ outcome after, (execute self function [path, name] given).Ends before outcome after ↔
        outcome = .ok Library.null ∧
          ∃ complaint?, Loads self text moduleName (withModule entered moduleName) complaint?
            after := by
  obtain ⟨call, entered, untouched, sameModules, comesTo⟩ :=
    result_execute_import self isImport claimed pathText nameText given
  have named : (withModule entered moduleName).store.text? path = some text := by
    have inside := (Store.isValue_of_text? pathText).inside
    have same : ((withModule entered moduleName).store.object path).payload =
        (before.store.object path).payload := untouched.payloads path inside
    unfold Store.text? at pathText ⊢
    rw [same]
    exact pathText
  refine ⟨call, entered, untouched, sameModules,
    fun _ _ => ends_loadScript_iff call named moduleName, fun outcome after => ?_⟩
  have opened : (execute self function [path, name] given).Ends before outcome after ↔
      outcome = .ok Library.null ∧ ∃ result, (loadScript self call path moduleName).Ends
        (withModule entered moduleName) result after := by
    rw [← ends_passedOver_iff]
    unfold Eval.Ends Activity.Ends
    unfold Eval.result at comesTo
    rw [comesTo]
  rw [opened]
  constructor
  · rintro ⟨succeeds, result, ends⟩
    obtain ⟨complaint?, loads, _⟩ := (ends_loadScript_iff call named moduleName).mp ends
    exact ⟨succeeds, complaint?, loads⟩
  · rintro ⟨succeeds, complaint?, loads⟩
    exact ⟨succeeds, _, (ends_loadScript_iff call named moduleName).mpr ⟨_, loads, rfl⟩⟩

theorem Evaluator.isScriptPath_empty : isScriptPath "" = false := by
  have one : "".splitOn "." = [""] := by
    have opened : "".splitOn "." = String.splitOnAux "" "." 0 0 0 [] := rfl
    rw [opened, String.splitOnAux.eq_def]
    rfl
  unfold isScriptPath
  rw [one]
  rfl

/-- A path without the ending of scripts is complained about, and the import succeeds. -/
theorem import_passes_over_failure_misnamed :
    let before := Machine.withPath
    let self := Evaluator.limited .standard
    (before.store.text? ⟨36⟩ = some "" ∧ before.store.text? ⟨37⟩ = some "notes") ∧
    ∃ machine, Evaluator.Loads self "" "notes" machine (some .scriptExtension) machine ∧
      (Evaluator.execute self (.calledOutermost "importAs" before) [⟨36⟩, ⟨37⟩] []).Ends before
        (.ok Library.null) machine := by
  have pathText : Machine.withPath.store.text? ⟨36⟩ = some "" := rfl
  have nameText : Machine.withPath.store.text? ⟨37⟩ = some "notes" := rfl
  obtain ⟨call, entered, _, _, _, concludes⟩ :=
    @import_passes_over_failure (.limited .standard) (.calledOutermost "importAs" .withPath) _ rfl rfl
      .withPath ⟨36⟩ ⟨37⟩ _ _ pathText nameText []
  have loads : Evaluator.Loads (.limited .standard) "" "notes"
      (Evaluator.withModule entered "notes") (some .scriptExtension)
      (Evaluator.withModule entered "notes") := .misnamed Evaluator.isScriptPath_empty
  exact ⟨⟨pathText, nameText⟩, _, loads, (concludes _ _).mpr ⟨rfl, _, loads⟩⟩

/-- Not every import of what is no script fails. -/
theorem import_of_no_script_succeeds :
    ¬∀ (function : Object) (before : Machine) (path name : ObjectId),
      function.payload = .builtin "importAs" → function.context.isSome = true →
      before.CannotLoad path → (before.store.text? path).isSome = true →
      before.store.text? name = some "notes" →
        ∃ fault after, (Evaluator.execute (.limited .standard) function [path, name] []).Ends before
          (.error (.failed fault)) after := by
  intro reported
  have unloadable : Machine.withPath.CannotLoad ⟨36⟩ := by
    intro text found
    cases found
    exact .inr ⟨.missing, rfl⟩
  obtain ⟨fault, after, fails⟩ := reported (.calledOutermost "importAs" .withPath) .withPath ⟨36⟩
    ⟨37⟩ rfl rfl unloadable rfl rfl
  have pathText : Machine.withPath.store.text? ⟨36⟩ = some "" := rfl
  have nameText : Machine.withPath.store.text? ⟨37⟩ = some "notes" := rfl
  have isImport : (Object.calledOutermost "importAs" .withPath).payload = .builtin "importAs" := rfl
  obtain ⟨call, entered, _, _, comesTo⟩ := Evaluator.result_execute_import (.limited .standard)
    isImport rfl pathText nameText []
  cases (Evaluator.ends_passedOver_iff.mp (comesTo.symm.trans fails)).1

end Lingo
