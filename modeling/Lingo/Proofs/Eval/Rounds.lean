/-
The course of loops.

All kinds of loop take in the continue and break signals of their bodies and nothing else.
-/

import Lingo.Proofs.Eval.Bodies
import Lingo.Proofs.Eval.Counting

namespace Lingo

namespace Evaluator

open Activity

theorem reverse_gained (ending : Ending) (endings : List Ending) (values : List ObjectId) :
    ((value? ending).toList ++ values).reverse ++ endings.filterMap value? =
      values.reverse ++ (ending :: endings).filterMap value? := by
  cases held : value? ending <;> simp [held]

theorem Head.afterTurn_of_goesOn (self : Evaluator) (body : Script) (context : Context)
    {ending : Ending} (goes : goesOn ending = true) (next : Head) (count : Nat)
    (values : List ObjectId) (middle : Machine) :
    afterTurn (next.afterRound self body context count values) middle ending =
      (next.rounds self body context count ((value? ending).toList ++ values)).result middle := by
  cases ending with
  | error cause => cases goes
  | ok outcome =>
      cases outcome with
      | ok id => rfl
      | error interrupt =>
          cases interrupt with
          | skipped => rfl
          | _ => cases goes

/-! ### The course of a loop -/

section

variable (self : Evaluator) (body : Script) (context : Context)

/-- A loop takes rounds that do not end it: each time there is to be one, and the body comes to a
value or is skipped. -/
inductive Passes : Head → Machine → List Ending → Head → Machine → Prop where
  | nil (head : Head) (machine : Machine) : Passes head machine [] head machine
  | cons {head next last : Head} {before ready middle after : Machine} {ending : Ending}
      {endings : List Ending} (asks : (head.ask self context).Ends before (.ok (some next)) ready)
      (ends : (self body context).result ready = (ending, middle)) (goes : goesOn ending = true)
      (others : Passes next middle endings last after) :
      Passes head before (ending :: endings) last after

/-- A loop comes to its end: there is to be no further round, or the body leaves the loop; or the
body fails or returns, which interrupts the loop as well. -/
inductive Closes (last : Head) (middle : Machine) : Option Interrupt → Machine → Prop where
  | done {after : Machine} (asks : (last.ask self context).Ends middle (.ok none) after) :
      Closes last middle none after
  | left {next : Head} {ready after : Machine}
      (asks : (last.ask self context).Ends middle (.ok (some next)) ready)
      (ends : (self body context).Ends ready (.error .left) after) : Closes last middle none after
  | failed {next : Head} {ready after : Machine} {fault : Fault}
      (asks : (last.ask self context).Ends middle (.ok (some next)) ready)
      (ends : (self body context).Ends ready (.error (.failed fault)) after) :
      Closes last middle (some (.failed fault)) after
  | returned {next : Head} {ready after : Machine} {id : ObjectId}
      (asks : (last.ask self context).Ends middle (.ok (some next)) ready)
      (ends : (self body context).Ends ready (.error (.returned id)) after) :
      Closes last middle (some (.returned id)) after

end

/-- No evaluation of what a loop goes by is interrupted, neither at the outset nor before a
round. -/
structure Header.Plain (header : Header) (evaluator : Evaluator) (body : Script)
    (context : Context) (before : Machine) : Prop where
  opens : ∀ interrupt after,
    ¬(header.opening evaluator context).Ends before (.error interrupt) after
  asks : ∀ head start endings last middle,
    (header.opening evaluator context).Ends before (.ok head) start →
      Passes evaluator body context head start endings last middle → ∀ interrupt after,
        ¬(last.ask evaluator context).Ends middle (.error interrupt) after

def unlessHalted {α : Type} (values : α) : Option Interrupt → Except Interrupt α
  | none => .ok values
  | some interrupt => .error interrupt

section

variable {self : Evaluator} {body : Script} {context : Context} {after : Machine}

theorem ends_rounds_iff {outcome : Except Interrupt (List ObjectId)} (count : Nat) :
    ∀ {head : Head} {values : List ObjectId} {before : Machine},
      (head.rounds self body context count values).Ends before outcome after ↔
        ∃ endings last middle, Passes self body context head before endings last middle ∧
          endings.length < count ∧
            ((∃ interrupt, (last.ask self context).Ends middle (.error interrupt) after ∧
              outcome = .error interrupt) ∨
            ∃ halt, Closes self body context last middle halt after ∧
              outcome = unlessHalted (values.reverse ++ endings.filterMap value?) halt) := by
  induction count with
  | zero =>
      intro head values before
      constructor
      · intro ends
        cases head <;> cases ends
      · rintro ⟨_, _, _, _, short, _⟩
        exact absurd short (Nat.not_lt_zero _)
  | succ count ih =>
      intro head values before
      rw [Head.rounds_succ, Eval.ends_bind_iff]
      constructor
      · rintro ⟨asked, ready, asks, goes⟩
        have nothing : values.reverse ++ List.filterMap value? [] = values.reverse :=
          List.append_nil _
        rcases asked with interrupt | none | next
        · cases goes
          exact ⟨[], head, before, .nil head before, Nat.succ_pos count, .inl ⟨_, asks, rfl⟩⟩
        · obtain ⟨same, rfl⟩ := Eval.ends_pure_iff.mp goes
          exact ⟨[], head, before, .nil head before, Nat.succ_pos count,
            .inr ⟨none, .done asks, same.trans (congrArg Except.ok nothing.symm)⟩⟩
        · rcases ended : (self body context).result ready with ⟨ending, middle⟩
          have turned := (result_bind_round ended _).symm.trans goes
          by_cases further : goesOn ending = true
          · rw [Head.afterTurn_of_goesOn self body context further] at turned
            obtain ⟨endings, last, final, passes, short, closes⟩ := ih.mp turned
            rw [reverse_gained] at closes
            exact ⟨_, last, final, .cons asks ended further passes, Nat.succ_lt_succ short, closes⟩
          · rcases ending with cause | ⟨fault | id | _ | _⟩ | id
            · cases turned
            · cases turned
              exact ⟨[], head, before, .nil head before, Nat.succ_pos count,
                .inr ⟨_, .failed asks ended, rfl⟩⟩
            · cases turned
              exact ⟨[], head, before, .nil head before, Nat.succ_pos count,
                .inr ⟨_, .returned asks ended, rfl⟩⟩
            · exact absurd rfl further
            · obtain ⟨same, rfl⟩ := Eval.ends_pure_iff.mp turned
              exact ⟨[], head, before, .nil head before, Nat.succ_pos count,
                .inr ⟨none, .left asks ended, same.trans (congrArg Except.ok nothing.symm)⟩⟩
            · exact absurd rfl further
      · rintro ⟨endings, last, middle, passes, short, closes⟩
        cases passes with
        | nil =>
            rw [List.filterMap_nil, List.append_nil] at closes
            rcases closes with ⟨interrupt, asks, rfl⟩ | ⟨halt, closes, rfl⟩
            · exact ⟨_, _, asks, rfl⟩
            · cases closes with
              | done asks => exact ⟨_, _, asks, rfl⟩
              | left asks ends => exact ⟨_, _, asks, result_bind_round ends _⟩
              | failed asks ends => exact ⟨_, _, asks, result_bind_round ends _⟩
              | returned asks ends => exact ⟨_, _, asks, result_bind_round ends _⟩
        | cons asks ends goes others =>
            refine ⟨_, _, asks, (result_bind_round ends _).trans ?_⟩
            rw [← reverse_gained] at closes
            rw [Head.afterTurn_of_goesOn self body context goes]
            exact ih.mpr ⟨_, last, middle, others, Nat.lt_of_succ_lt_succ short, closes⟩

end

/-- Loops take in the signals of their bodies and nothing else.  Let a loop of any kind, in any
context and on any machine, go by what comes to values.  It ends just as its course says: after
rounds that came to values or were skipped there is to be none, or the body leaves the loop, and
the loop yields the values of those that came to one, in order; or the body fails or returns, and
the loop is interrupted by the same at once.  A continue or break signal never leaves it. -/
theorem loops_take_in_signals (limits : Limits) (depth : Nat) (header : Header) (span : Span)
    (body : Script) (block : Bool) (context : Context) (before : Machine)
    (plain : header.Plain (atDepth limits depth) body context before)
    (outcome : Except Interrupt ObjectId) (after : Machine) :
    (atDepth limits (depth + 1) (header.script span body block) context).Ends before outcome after ↔
      outcome ≠ .error .skipped ∧ outcome ≠ .error .left ∧
        ∃ head start endings last middle halt final,
          (header.opening (atDepth limits depth) context).Ends before (.ok head) start ∧
          Passes (atDepth limits depth) body context head start endings last middle ∧
          endings.length < limits.rounds ∧
          Closes (atDepth limits depth) body context last middle halt final ∧
          loopEnd span block context final (.ok (unlessHalted (endings.filterMap value?) halt)) =
            (.ok outcome, after) := by
  change (step limits _ _ (header.script span body block) context).Ends before outcome after ↔ _
  rw [step_script, Eval.ends_bind_iff]
  constructor
  · rintro ⟨opened, start, opens, loops⟩
    rcases opened with interrupt | head
    · exact absurd opens (plain.opens interrupt start)
    · obtain ⟨gathered, final, rounds, _⟩ := Eval.ends_bind_iff.mp loops
      obtain ⟨endings, last, middle, passes, short, ⟨interrupt, asks, _⟩ | ⟨halt, closes, rfl⟩⟩ :=
        (ends_rounds_iff _).mp rounds
      · exact absurd asks (plain.asks head start endings last middle opens passes interrupt final)
      · have yields := (result_loopEnd rounds span block context).symm.trans loops
        obtain ⟨unskipped, unleft⟩ : outcome ≠ .error .skipped ∧ outcome ≠ .error .left := by
          cases closes with
          | done => cases block <;> cases yields <;> simp
          | left => cases block <;> cases yields <;> simp
          | failed =>
              cases yields
              simp
          | returned =>
              cases yields
              simp
        exact ⟨unskipped, unleft, head, start, endings, last, middle, halt, final, opens, passes,
          short, closes, yields⟩
  · rintro ⟨_, _, head, start, endings, last, middle, halt, final, opens, passes, short, closes,
      yields⟩
    have rounds := (ends_rounds_iff _).mpr ⟨endings, last, middle, passes, short,
      .inr ⟨halt, closes, (rfl : _ = unlessHalted ([].reverse ++ _) halt)⟩⟩
    exact ⟨.ok head, start, opens, (result_loopEnd rounds span block context).trans yields⟩

/-- A loop whose condition always holds is left by its body, and takes the break signal in. -/
theorem loops_take_in_signals_break :
    let header : Header := .test (.number default (.int 1))
    let before : Machine := .initial {} []
    header.Plain (atDepth .standard 1) (.leave default) [] before ∧ ∃ after,
      (atDepth .standard 2 (header.script default (.leave default) true) []).Ends before
        (.ok Store.nullId) after := by
  intro header before
  obtain ⟨ready, asks⟩ : ∃ ready, (Head.ask (atDepth .standard 1) []
      (.testing (.number default (.int 1)))).Ends before
        (.ok (some (.testing (.number default (.int 1))))) ready := by
    exact ⟨_, rfl⟩
  have plain : header.Plain (atDepth .standard 1) (.leave default) [] before := by
    constructor
    · intro interrupt after opens
      cases opens
    · intro head start endings last middle opens passes interrupt after interrupts
      cases opens
      cases passes with
      | nil => cases asks.symm.trans interrupts
      | cons _ ends goes =>
          cases ends
          cases goes
  exact ⟨plain, ready, (loops_take_in_signals .standard 1 header default (.leave default) true []
    before plain _ ready).mpr ⟨by simp, by simp, _, before, [], _, before, none, ready, rfl,
      .nil _ before, by decide, .left asks rfl, rfl⟩⟩

/-! ### Elements -/

/-- The element at an index holds a number or a text, and a name is set to a new number that holds
the same. -/
def TakesUp (items : ListId) (table : TableId) (name : String) (index : Nat)
    (before ready : Machine) : Prop :=
  ∃ id value, (before.store.items items)[index]? = some (.object id) ∧
    before.store.scalar? id = some value ∧ SetsNew table name value before ready

/-- The turns of a loop over a list, from an index on, all come to a value or are skipped, and the
list stays as it is. -/
def Steady (items : ListId) (table : TableId) (name : String) (body : Eval ObjectId) (index : Nat)
    (before : Machine) (slots : Array Slot) : Prop :=
  ∀ due endings after, Turns (TakesUp items table name) body due index before endings after →
    (∀ ending ∈ endings, goesOn ending = true) ∧ after.store.items items = slots

/-- What comes of the turns for some elements: their values behind others, if there was a turn for
each; or nothing, if the next element holds neither a number nor a text. -/
inductive Visited (after : Machine) (others : List ObjectId) (slots : List Slot)
    (endings : List Ending) : Except Crash (Except Interrupt (List ObjectId)) → Prop where
  | all (each : endings.length = slots.length) :
      Visited after others slots endings (.ok (.ok (others ++ endings.filterMap value?)))
  | stuck {slot : Slot} (found : slots[endings.length]? = some slot)
      (other : ∀ id, slot = .object id → after.store.scalar? id = none) :
      Visited after others slots endings (.error .missingPart)

section

variable {self : Evaluator} {context : Context} {table : TableId} {name : String} {items : ListId}
  {index : Nat} {before ready : Machine}

theorem ends_next (items : ListId) (index : Nat) (before : Machine) :
    (Collection.next (.items items) index).Ends before (before.store.items items)[index]? before :=
  rfl

theorem TakesUp.asks (takes : TakesUp items table name index before ready) (self : Evaluator)
    (named : context.table = some table) :
    (Head.ask self context (.reading name (.items items) index)).Ends before
      (.ok (some (.reading name (.items items) (index + 1)))) ready := by
  obtain ⟨id, value, found, held, sets⟩ := takes
  have next := ends_next items index before
  rw [found] at next
  have made : (makeBare (.number value)).Ends before ⟨before.store.objects.size⟩ _ :=
    ends_addObject _ before
  have bound := ends_assign named name ⟨before.store.objects.size⟩
    (before.withStore (before.store.addObject { payload := .number value }).2)
  rw [← sets.bound] at bound
  exact Eval.Ends.bind (Eval.Ends.lift next) (Eval.Ends.bind (Eval.Ends.lift (ends_pure id before))
    (Eval.Ends.bind (Eval.Ends.lift (ends_scalar held)) (Eval.Ends.bind (Eval.Ends.lift made)
      (Eval.Ends.bind (Eval.Ends.lift bound) rfl))))

theorem result_ask_other {slot : Slot} (found : (before.store.items items)[index]? = some slot)
    (other : ∀ id, slot = .object id → before.store.scalar? id = none) {β : Type}
    (next : Option Head → Eval β) :
    (Head.ask self context (.reading name (.items items) index) >>= next).result before =
      (.error .missingPart, before) := by
  have starts := ends_next items index before
  rw [found] at starts
  unfold Head.ask
  rw [bind_assoc, Eval.result_bind_ended (Eval.Ends.lift starts)]
  cases slot with
  | object id =>
      have crashed : (scalar id).run.run before = (.error .missingPart, before) := by
        change (part (before.store.scalar? id) : Activity Scalar).run.run before = _
        rw [other id rfl]
        rfl
      have isObject : (objectAt (.object id)).Ends before id before := rfl
      simp only [bind_assoc]
      rw [Eval.result_bind_ended (Eval.Ends.lift isObject)]
      exact result_lift_crashed crashed _
  | bare value => rfl
  | nothing => rfl

/-- A loop over a list takes one turn for each element from an index on, up to the first that holds
neither a number nor a text. -/
theorem turns_reading (limits : Limits) (depth : Nat) (body : Script) {slots : Array Slot}
    (named : context.table = some table) (rest : List Slot) :
    ∀ (index count : Nat) (values : List ObjectId) (before : Machine),
      slots.toList.drop index = rest → rest.length < count → before.Rooted →
      table.index < before.store.tables.size →
      Steady items table name (atDepth limits depth body context) index before slots →
      ∃ endings after outcome,
        Turns (TakesUp items table name) (atDepth limits depth body context) endings.length index
          before endings after ∧
        Visited after values.reverse rest endings outcome ∧
        (Head.rounds (atDepth limits depth) body context count values
          (.reading name (.items items) index)).result before = (outcome, after) := by
  induction rest with
  | nil =>
      intro index count values before others enough _ _ steady
      obtain ⟨count, rfl⟩ := Nat.exists_eq_add_one.mpr enough
      have ended := ends_next items index before
      rw [(steady 0 [] before (.done index before)).2, ← Array.getElem?_toList,
        List.getElem?_eq_none (List.drop_eq_nil_iff.mp others)] at ended
      refine ⟨[], before, _, .done index before, .all rfl, ?_⟩
      rw [Head.rounds_succ]
      unfold Head.ask
      rw [bind_assoc, Eval.result_bind_ended (Eval.Ends.lift ended)]
      rw [List.filterMap_nil, List.append_nil]
      rfl
  | cons slot rest ih =>
      intro index count values before others enough rooted inside steady
      obtain ⟨count, rfl⟩ := Nat.exists_eq_add_one.mpr (Nat.zero_lt_of_lt enough)
      have found : (before.store.items items)[index]? = some slot := by
        rw [(steady 0 [] before (.done index before)).2, ← Array.getElem?_toList,
          ← List.head?_drop, others]
        rfl
      by_cases holds : ∃ id value, slot = .object id ∧ before.store.scalar? id = some value
      · obtain ⟨id, value, rfl, held⟩ := holds
        obtain ⟨ready, sets⟩ : ∃ ready, SetsNew table name value before ready := ⟨_, inside, rfl⟩
        have takes : TakesUp items table name index before ready := ⟨id, value, found, held, sets⟩
        rcases ended : (atDepth limits depth body context).result ready with ⟨ending, middle⟩
        have goes : goesOn ending = true := by
          by_contra stops
          have turns := steady 1 [ending] middle (.last takes ended (Bool.not_eq_true _ ▸ stops))
          exact stops (turns.1 ending List.mem_cons_self)
        obtain ⟨outcome, rfl⟩ : ∃ outcome, ending = .ok outcome := by
          cases ending with
          | error cause => cases goes
          | ok outcome => exact ⟨outcome, rfl⟩
        obtain ⟨rootedNow, insideNow⟩ := sets.rooted_of_ends rooted named ended
        obtain ⟨endings, after, gathered, turns, visited, comes⟩ :=
          ih (index + 1) count ((value? (.ok outcome)).toList ++ values) middle
            (by rw [← List.tail_drop, others]; rfl) (Nat.lt_of_succ_lt_succ enough) rootedNow
            insideNow fun due endings last turns => by
              obtain ⟨all, kept⟩ := steady (due + 1) _ last (.further takes ended goes turns)
              exact ⟨fun one among => all one (List.mem_cons_of_mem _ among), kept⟩
        refine ⟨_ :: endings, after, gathered, .further takes ended goes turns, ?_, ?_⟩
        · cases visited with
          | all each =>
              rw [reverse_gained]
              exact .all (congrArg (· + 1) each)
          | stuck found other => exact .stuck found other
        · rw [Head.rounds_succ, Eval.result_bind_ended (takes.asks (atDepth limits depth) named)]
          refine (result_bind_round ended _).trans ?_
          rw [Head.afterTurn_of_goesOn _ _ _ goes, comes]
      · have other : ∀ id, slot = .object id → before.store.scalar? id = none := by
          intro id isObject
          by_contra held
          obtain ⟨value, held⟩ := Option.ne_none_iff_exists'.mp held
          exact holds ⟨id, value, isObject, held⟩
        refine ⟨[], before, _, .done index before, .stuck rfl other, ?_⟩
        rw [Head.rounds_succ]
        exact result_ask_other found other _

end

/-- Loops over lists take one turn for each element that holds a number or a text.  On every machine
that is reached, let a loop go over a list, in a context whose table is there, with a body that
always comes to a value or is skipped and leaves the list as it is, and let there be rounds enough.
Before each evaluation of the body the name is set to a new number, which holds what the element
with the same index holds: its number, or its text.  If all elements hold one or the other, there is
one evaluation for each of them.  Else there is one for each before the first that holds neither,
and there the loop ends abnormally. -/
theorem turns_of_each (limits : Limits) (avoided : Moment → Prop) (machine : Machine)
    (reached : Machine.Reached limits avoided machine) (context : Context) (table : TableId)
    (named : context.table = some table) (inside : table.index < machine.store.tables.size)
    (span : Span) (name : String) (collection body : Script) (block : Bool) (depth : Nat)
    (start : Machine) (subject : ObjectId) (items : ListId) (slots : Array Slot)
    (ends : (atDepth limits depth collection context).Ends machine (.ok subject) start)
    (isList : (start.store.object subject).payload = .list items)
    (enough : slots.size < limits.rounds)
    (steady : Steady items table name (atDepth limits depth body context) 0 start slots) :
    ∃ endings after outcome,
      Turns (TakesUp items table name) (atDepth limits depth body context) endings.length 0 start
        endings after ∧
      Visited after [] slots.toList endings outcome ∧
      (atDepth limits (depth + 1) (.each span name collection body block) context).result machine =
        loopEnd span block context after outcome := by
  obtain ⟨rooted, insideStart⟩ := rooted_of_ends reached.rooted named inside ends
  obtain ⟨endings, after, outcome, turns, visited, comes⟩ := turns_reading limits depth body named
    slots.toList 0 limits.rounds [] start rfl enough rooted insideStart steady
  have read : (collectionOf subject).Ends start (.items items) start := by
    unfold collectionOf
    apply Activity.Ends.bind (ends_object subject start)
    rw [isList]
    rfl
  have opens : (Header.opening (atDepth limits depth) context (.each name collection)).Ends machine
      (.ok (.reading name (.items items) 0)) start :=
    (Eval.result_observe_ended ends _).trans (Eval.Ends.bind (Eval.Ends.lift read) rfl)
  refine ⟨endings, after, outcome, turns, visited, ?_⟩
  change (step limits _ _ (Header.script span body block (.each name collection)) context).result
    machine = _
  rw [step_script, Eval.result_bind_ended opens]
  exact result_loopEnd comes span block context

theorem steady_skip (limits : Limits) (depth : Nat) (span : Span) (context : Context)
    (items : ListId) (table : TableId) (name : String) (index : Nat) (start : Machine) :
    Steady items table name (atDepth limits (depth + 1) (.skip span) context) index start
      (start.store.items items) := by
  intro due endings after turns
  refine ⟨turns.goesOn_of_body fun ready => rfl, ?_⟩
  induction turns with
  | done => rfl
  | further enters ends _ _ ih =>
      obtain ⟨_, _, _, _, sets⟩ := enters
      cases ends
      rw [ih, sets.bound]
      rfl
  | last _ ends stops =>
      cases ends
      cases stops

/-- A list of a text and a list. -/
theorem turns_of_each_mixed :
    ∃ start endings after outcome,
      Turns (TakesUp ⟨1⟩ ⟨0⟩ "x") (atDepth .standard 3 (.skip default) (outermost (.initial {} [])))
        endings.length 0 start endings after ∧
      Visited after [] [.object ⟨36⟩, .object ⟨37⟩] endings outcome ∧
      (atDepth .standard 4 (.each default "x" (.list default [.string default "a", .list default []])
        (.skip default) true) (outermost (.initial {} []))).result (.initial {} []) =
          loopEnd default true (outermost (.initial {} [])) after outcome := by
  obtain ⟨start, ends, isList, slots⟩ : ∃ start, (atDepth .standard 3 (.list default
      [.string default "a", .list default []]) (outermost (.initial {} []))).Ends (.initial {} [])
        (.ok ⟨38⟩) start ∧ (start.store.object ⟨38⟩).payload = .list ⟨1⟩ ∧
          start.store.items ⟨1⟩ = #[.object ⟨36⟩, .object ⟨37⟩] := ⟨_, rfl, rfl, rfl⟩
  have steady := steady_skip .standard 2 default (outermost (.initial {} [])) ⟨1⟩ ⟨0⟩ "x" 0 start
  rw [slots] at steady
  exact ⟨start, turns_of_each .standard (fun _ => False) (.initial {} []) (.between (.start {} []))
    (outermost (.initial {} [])) ⟨0⟩ rfl (by decide) default "x" _ (.skip default) true 3 start ⟨38⟩
    ⟨1⟩ _ ends isList (by decide) steady⟩

/-- In a loop over a list of a text the name is no text but a number, and a loop over a list of a
list ends abnormally. -/
theorem elements_change_kind :
    let machine := Machine.afterText "for x in [\"a\"]:\nx\nend"
    (machine.store.lookup machine.globals "x").map (fun id =>
      Library.isNumber (machine.store.object id).payload) = some true ∧
    ((Machine.run .standard { name := "<stdin>", text := "for x in [[1]]:\nx\nend" } "").run.run
      (.initial {} [])).1.toOption.isNone = true := by
  decide +kernel

end Evaluator

end Lingo
