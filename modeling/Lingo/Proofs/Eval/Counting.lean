/-
Counting loops.

Where a loop counts from one whole number to another, both known as they are written, the turns
that are due are known beforehand: the numbers that the loop compares with and adds are objects to
which nothing refers, so that no body can change them.
-/

import Mathlib.Data.Rat.Floor
import Lingo.Proofs.Eval.Calling
import Lingo.Proofs.Eval.Formula
import Lingo.Proofs.Eval.Lineage

namespace Lingo

namespace Evaluator

open Activity

variable {value : Scalar}

/-! ### Turns -/

abbrev Ending := Except Crash (Except Interrupt ObjectId)

def value? : Ending → Option ObjectId
  | .ok (.ok id) => some id
  | _ => none

/-- Whether a loop goes on after an evaluation of its body. -/
def goesOn : Ending → Bool
  | .ok (.ok _) => true
  | .ok (.error .skipped) => true
  | _ => false

/-- A loop takes turns that are due, from a number on: for each one the machine is made ready and
the body is evaluated.  After the first that does not go on there are no more. -/
inductive Turns (enter : Nat → Machine → Machine → Prop) (body : Eval ObjectId) :
    Nat → Nat → Machine → List Ending → Machine → Prop where
  | done (index : Nat) (machine : Machine) : Turns enter body 0 index machine [] machine
  | further {due index : Nat} {before ready middle after : Machine} {ending : Ending}
      {endings : List Ending} (enters : enter index before ready)
      (ends : body.result ready = (ending, middle)) (goes : goesOn ending = true)
      (others : Turns enter body due (index + 1) middle endings after) :
      Turns enter body (due + 1) index before (ending :: endings) after
  | last {due index : Nat} {before ready after : Machine} {ending : Ending}
      (enters : enter index before ready) (ends : body.result ready = (ending, after))
      (stops : goesOn ending = false) :
      Turns enter body (due + 1) index before [ending] after

def gathered : List Ending → Except Crash (Except Interrupt (List ObjectId))
  | [] => .ok (.ok [])
  | .ok (.ok id) :: later => (gathered later).map (Except.map (id :: ·))
  | .ok (.error .skipped) :: later => gathered later
  | .ok (.error .left) :: _ => .ok (.ok [])
  | .ok (.error interrupt) :: _ => .ok (.error interrupt)
  | .error cause :: _ => .error cause

/-- How a loop comes out: in block form it yields nothing, else a new list of the values. -/
def loopEnd (span : Span) (block : Bool) (context : Context) (after : Machine) :
    Except Crash (Except Interrupt (List ObjectId)) → Ending × Machine
  | .ok (.ok values) =>
      if block then (.ok (.ok Store.nullId), after)
      else (.ok (.ok ⟨after.store.objects.size⟩),
        after.withStore (after.store.withList (values.map .object).toArray span context))
  | .ok (.error interrupt) => (.ok (.error interrupt), after)
  | .error cause => (.error cause, after)

section

variable {enter : Nat → Machine → Machine → Prop} {body : Eval ObjectId} {due index : Nat}
  {before after : Machine} {endings : List Ending}

section

variable (turns : Turns enter body due index before endings after)

include turns

theorem Turns.length_of_goesOn (all : ∀ ending ∈ endings, goesOn ending = true) :
    endings.length = due := by
  induction turns with
  | done => rfl
  | further _ _ _ _ ih =>
      rw [List.length_cons, ih fun ending later => all ending (List.mem_cons_of_mem _ later)]
  | last _ _ stops => exact absurd (all _ List.mem_cons_self) (by rw [stops]; exact Bool.false_ne_true)

theorem Turns.length_of_stops {place : Nat} {ending : Ending} (here : endings[place]? = some ending)
    (stops : goesOn ending = false) : endings.length = place + 1 := by
  induction turns generalizing place with
  | done => cases here
  | further _ _ goes _ ih =>
      cases place with
      | zero =>
          cases here
          cases goes.symm.trans stops
      | succ place => rw [List.length_cons, ih here]
  | last =>
      cases place with
      | zero => rfl
      | succ place => cases here

theorem Turns.goesOn_of_body (all : ∀ ready, goesOn (body.result ready).1 = true) :
    ∀ ending ∈ endings, goesOn ending = true := by
  induction turns with
  | done => exact fun _ none => by cases none
  | further _ _ goes _ ih => exact List.forall_mem_cons.mpr ⟨goes, ih⟩
  | @last _ _ _ ready _ _ _ ends _ =>
      refine List.forall_mem_singleton.mpr ?_
      have goes := all ready
      rwa [ends] at goes

end

theorem gathered_of_goesOn {endings : List Ending}
    (all : ∀ ending ∈ endings, goesOn ending = true) :
    gathered endings = .ok (.ok (endings.filterMap value?)) := by
  fun_induction gathered endings with
  | case1 => rfl
  | case2 id later ih =>
      rw [ih fun ending among => all ending (List.mem_cons_of_mem _ among)]
      rfl
  | case3 later ih =>
      rw [ih fun ending among => all ending (List.mem_cons_of_mem _ among)]
      rfl
  | case4 => cases all _ List.mem_cons_self
  | case5 interrupt later notSkipped =>
      cases interrupt with
      | skipped => exact absurd rfl notSkipped
      | _ => cases all _ List.mem_cons_self
  | case6 => cases all _ List.mem_cons_self

end

theorem result_loopEnd {rounds : Eval (List ObjectId)} {before after : Machine}
    {outcome : Except Crash (Except Interrupt (List ObjectId))}
    (ended : rounds.result before = (outcome, after)) (span : Span) (block : Bool)
    (context : Context) :
    (rounds >>= loopValue span block context).result before =
      loopEnd span block context after outcome := by
  rw [Eval.bind_eq_observe]
  cases outcome with
  | error cause => exact Eval.result_observe_crashed ended _
  | ok outcome =>
      rw [Eval.result_observe_ended ended]
      cases outcome with
      | error interrupt => rfl
      | ok values => cases block <;> rfl

/-- What comes after a turn: the loop goes on as the body came out, or ends with it. -/
def afterTurn {β : Type} (next : Round → Eval β) (middle : Machine) :
    Ending → Except Crash (Except Interrupt β) × Machine
  | .ok (.ok id) => (next (.value id)).result middle
  | .ok (.error .skipped) => (next .skipped).result middle
  | .ok (.error .left) => (next .left).result middle
  | .ok (.error interrupt) => (.ok (.error interrupt), middle)
  | .error cause => (.error cause, middle)

theorem result_bind_round {self : Evaluator} {body : Script} {context : Context}
    {ready middle : Machine} {ending : Ending} {β : Type}
    (ended : (self body context).result ready = (ending, middle)) (next : Round → Eval β) :
    (round self body context >>= next).result ready = afterTurn next middle ending := by
  unfold round
  rw [bind_assoc]
  cases ending with
  | error cause => exact Eval.result_observe_crashed ended _
  | ok outcome =>
      rw [Eval.result_observe_ended ended]
      cases outcome with
      | ok id => rfl
      | error interrupt => cases interrupt <;> rfl

/-! ### Counting -/

def roundCount (first limit step : Int) : Nat :=
  ⌈((limit - first : Int) : ℚ) / step⌉.toNat

theorem lt_roundCount {first limit step : Int} (nonzero : step ≠ 0) (index : Nat) :
    index < roundCount first limit step ↔
      if 0 ≤ step then first + index * step < limit else limit < first + index * step := by
  have floor : index < roundCount first limit step ↔
      ((index : Int) : ℚ) < ((limit - first : Int) : ℚ) / step := by
    rw [roundCount, Int.lt_toNat, Int.lt_ceil]
  rw [floor]
  split
  next rising =>
    have positive : (0 : ℚ) < step := by exact_mod_cast lt_of_le_of_ne rising nonzero.symm
    rw [lt_div_iff₀ positive]
    norm_cast
    omega
  next falling =>
    have negative : (step : ℚ) < 0 := by exact_mod_cast not_le.mp falling
    rw [lt_div_iff_of_neg negative]
    norm_cast
    omega

theorem within_eq {first limit step : Int} (nonzero : step ≠ 0) (index : Nat) :
    within (decide (0 ≤ step)) (.int (first + index * step)) (.int limit) =
      .ok (decide (index < roundCount first limit step)) := by
  have left := @lt_roundCount first limit step nonzero index
  unfold within
  by_cases rising : 0 ≤ step
  · simp only [decide_eq_true rising, if_true, Formula.lt_int, left, if_pos rising]
  · simp only [decide_eq_false rising, Bool.false_eq_true, if_false, Formula.gt_int, left,
      if_neg rising]

theorem ends_scalar {machine : Machine} {id : ObjectId}
    (held : machine.store.scalar? id = some value) : (scalar id).Ends machine value machine := by
  change (part (machine.store.scalar? id) : Activity Scalar).Ends machine value machine
  rw [held]
  rfl

theorem ends_assign {context : Context} {table : TableId} (named : context.table = some table)
    (name : String) (value : ObjectId) (machine : Machine) :
    (assign context name value).Ends machine ()
      (machine.withStore (machine.store.setSymbol table name (some value))) := by
  unfold assign tableOf
  rw [named]
  rfl

structure SetsNew (table : TableId) (name : String) (value : Scalar) (before ready : Machine) :
    Prop where
  inside : table.index < before.store.tables.size
  bound : ready = before.withStore ((before.store.addObject { payload := .number value }).2.setSymbol
    table name (some ⟨before.store.objects.size⟩))

theorem scalar?_of_confines {start machine : Machine} {hidden : ObjectId → Prop}
    (confines : start.Confines hidden machine) {id : ObjectId} (isHidden : hidden id) :
    machine.store.scalar? id = start.store.scalar? id := by
  unfold Store.scalar?
  rw [confines.kept id isHidden]

theorem SetsNew.keeps {table : TableId} {name : String} {before ready : Machine}
    (sets : SetsNew table name value before ready) {realm : Realm} (closed : realm.Closed)
    (holds : realm.holds before) (reaches : realm.reaches before table)
    (binds : ∀ machine, realm.binds machine table name) : realm.Keeps before ready := by
  have fits : realm.Fits before { payload := .number value } :=
    ⟨closed.number value, fun _ none => (by cases none), fun _ _ none => (by cases none)⟩
  obtain ⟨made, known⟩ := closed.addObject holds fits
  rw [sets.bound]
  exact made.trans (closed.assign name made.holds (made.reaches table reaches) known (binds _))

/-- Between two turns: what is hidden is as it was, and the table of the context is there. -/
structure Underway (start : Machine) (hidden : ObjectId → Prop) (table : TableId)
    (machine : Machine) : Prop where
  confines : start.Confines hidden machine
  rooted : machine.Rooted
  inside : table.index < machine.store.tables.size

section

variable {limits : Limits} {depth : Nat} {body : Script} {context : Context} {table : TableId}
  {name : String} {start before ready middle : Machine} {hidden : ObjectId → Prop}
  {outcome : Except Interrupt ObjectId}

theorem rooted_of_ends {script : Script} {after : Machine} (rooted : before.Rooted)
    (named : context.table = some table) (inside : table.index < before.store.tables.size)
    (ends : (atDepth limits depth script context).Ends before outcome after) :
    after.Rooted ∧ table.index < after.store.tables.size := by
  have admits : (Realm.rooted before).Admits before context := by
    refine ⟨fun other here => ?_, trivial⟩
    cases named.symm.trans here
    exact inside
  have stays := loyal_atDepth (Realm.closed_rooted before) (serves_rooted before) trivial {} limits
    depth script context before admits
  have kept := Activity.Stays.keeps stays ⟨rooted, .refl _⟩ ends
  exact ⟨kept.holds.1, kept.reaches table inside⟩

theorem SetsNew.rooted_of_ends (sets : SetsNew table name value before ready)
    (rooted : before.Rooted) (named : context.table = some table)
    (ends : (atDepth limits depth body context).Ends ready outcome middle) :
    middle.Rooted ∧ table.index < middle.store.tables.size := by
  have kept := sets.keeps (Realm.closed_rooted before) ⟨rooted, .refl _⟩ sets.inside
    fun _ => trivial
  exact Evaluator.rooted_of_ends kept.holds.1 named (kept.reaches table sets.inside) ends

theorem Underway.turn (underway : Underway start hidden table before) (hides : start.Hides hidden)
    (named : context.table = some table) (sets : SetsNew table name value before ready)
    (ends : (atDepth limits depth body context).Ends ready outcome middle) :
    Underway start hidden table middle := by
  have entered := sets.keeps (Realm.closed_confined hides) underway.confines trivial
    fun _ => trivial
  have kept := sets.rooted_of_ends underway.rooted named ends
  exact ⟨confines_of_ends hides entered.holds ends, kept.1, kept.2⟩

theorem turns_countRounds (limits : Limits) (depth : Nat) (name : String) (body : Script) (a : Int)
    {b s : Int} {limit step : ObjectId} (hides : start.Hides hidden)
    (named : context.table = some table)
    (limitHeld : start.store.scalar? limit = some (.int b)) (limitHidden : hidden limit)
    (stepHeld : start.store.scalar? step = some (.int s)) (stepHidden : hidden step)
    (nonzero : s ≠ 0) :
    ∀ (fuel index : Nat) (values : List ObjectId) (before : Machine),
      Underway start hidden table before → index ≤ roundCount a b s →
      roundCount a b s - index < fuel →
      ∃ endings after, Turns (fun k => SetsNew table name (.int (a + k * s)))
          (atDepth limits depth body context) (roundCount a b s - index) index before endings
          after ∧
        (countRounds (atDepth limits depth) name limit step (decide (0 ≤ s)) body context fuel
          (.int (a + index * s)) values).result before =
            ((gathered endings).map (Except.map (values.reverse ++ ·)), after) := by
  intro fuel
  induction fuel with
  | zero => exact fun _ _ _ _ _ short => absurd short (Nat.not_lt_zero _)
  | succ fuel ih =>
      intro index values before underway within_ enough
      have limitNow := (scalar?_of_confines underway.confines limitHidden).trans limitHeld
      unfold countRounds
      rw [Eval.result_bind_ended (Eval.Ends.lift (ends_scalar limitNow)),
        Eval.result_bind_ended (Eval.ends_settle (within_eq nonzero index) before)]
      by_cases due : index < roundCount a b s
      · obtain ⟨left, more⟩ : ∃ left, roundCount a b s - index = left + 1 :=
          ⟨roundCount a b s - index - 1, by omega⟩
        have next : a + index * s + s = a + ((index + 1 : Nat) : Int) * s := by
          push_cast
          ring
        obtain ⟨ready, sets⟩ : ∃ ready, SetsNew table name (.int (a + index * s)) before ready :=
          ⟨_, underway.inside, rfl⟩
        have entered := sets.keeps (Realm.closed_confined hides) underway.confines trivial
          fun _ => trivial
        have stepNow := (scalar?_of_confines entered.holds stepHidden).trans stepHeld
        have made : (makeBare (.number (.int (a + index * s)))).Ends before
            ⟨before.store.objects.size⟩ _ := ends_addObject _ before
        have bound := ends_assign named name ⟨before.store.objects.size⟩
          (before.withStore (before.store.addObject { payload := .number (.int (a + index * s)) }).2)
        rw [← sets.bound] at bound
        rw [if_pos (decide_eq_true due), Eval.result_bind_ended (Eval.Ends.lift made),
          Eval.result_bind_ended (Eval.Ends.lift bound),
          Eval.result_bind_ended (Eval.Ends.lift (ends_scalar stepNow)),
          Eval.result_bind_ended (Eval.ends_settle
            (rfl : Scalar.add (.int (a + index * s)) (.int s) = .ok (.int (a + index * s + s))) ready),
          next]
        rcases ended : (atDepth limits depth body context).result ready with ⟨ending, middle⟩
        rw [result_bind_round ended]
        -- After a turn that goes on, the others are known by induction.
        have further : ∀ outcome, ending = .ok outcome → ∀ collected : List ObjectId,
            ∃ endings after, Turns (fun k => SetsNew table name (.int (a + k * s)))
                (atDepth limits depth body context) left (index + 1) middle endings after ∧
              (countRounds (atDepth limits depth) name limit step (decide (0 ≤ s)) body context
                fuel (.int (a + ((index + 1 : Nat) : Int) * s)) collected).result middle =
                  ((gathered endings).map (Except.map (collected.reverse ++ ·)), after) := by
          rintro outcome rfl collected
          obtain rfl : left = roundCount a b s - (index + 1) := by omega
          exact ih (index + 1) collected middle (underway.turn hides named sets ended) due (by omega)
        rw [more]
        rcases ending with cause | ⟨fault | id | _ | _⟩ | id
        · exact ⟨[.error cause], middle, .last sets ended rfl, rfl⟩
        · exact ⟨[.ok (.error (.failed fault))], middle, .last sets ended rfl, rfl⟩
        · exact ⟨[.ok (.error (.returned id))], middle, .last sets ended rfl, rfl⟩
        · obtain ⟨endings, after, turns, counted⟩ := further _ rfl values
          exact ⟨.ok (.error .skipped) :: endings, after, .further sets ended rfl turns, counted⟩
        · refine ⟨[.ok (.error .left)], middle, .last sets ended rfl, ?_⟩
          change (Except.ok (Except.ok values.reverse), middle) =
            (Except.ok (Except.ok (values.reverse ++ [])), middle)
          rw [List.append_nil]
        · obtain ⟨endings, after, turns, counted⟩ := further _ rfl (id :: values)
          refine ⟨.ok (.ok id) :: endings, after, .further sets ended rfl turns, counted.trans ?_⟩
          rw [gathered]
          rcases gathered endings with cause | interrupt | later
          · rfl
          · rfl
          · simp [Except.map]
      · rw [if_neg (by simpa using due)]
        have none : roundCount a b s - index = 0 := by omega
        rw [none]
        refine ⟨[], before, .done index before, ?_⟩
        rw [gathered]
        change _ = (Except.ok (Except.ok (values.reverse ++ [])), before)
        rw [List.append_nil]
        rfl

end

/-! ### Whole numbers as they are written -/

/-- A script writes a whole number: in digits, behind a minus sign if it is negative. -/
inductive WritesInt : Script → Int → Prop where
  | digits (span : Span) (n : Nat) : WritesInt (.number span (.int n)) n
  | negative (span place : Span) (n : Nat) :
      WritesInt (.unary span .minus (.number place (.int n))) (-n)

/-- The step of a loop is written, or is one. -/
def WritesStep : Option Script → Int → Prop
  | some script, value => WritesInt script value
  | none, value => value = 1

structure NewNumber (before after : Store) (id : ObjectId) (value : Int) : Prop where
  enlarges : before.Enlarges after
  fresh : before.objects.size ≤ id.index
  inside : id.index < after.objects.size
  held : after.scalar? id = some (.int value)

theorem NewNumber.later {before after final : Store} {id : ObjectId} {value : Int}
    (new : NewNumber before after id value) (enlarges : after.Enlarges final) :
    final.scalar? id = some (.int value) := by
  unfold Store.scalar?
  rw [enlarges.extension.keeps id new.inside]
  exact new.held

section

variable {limits : Limits} {value : Int} {table : TableId} {context : Context} {before : Machine}

theorem WritesInt.evaluates {script : Script} (written : WritesInt script value) (depth : Nat)
    (rooted : before.Rooted) (named : context.table = some table)
    (inside : table.index < before.store.tables.size) :
    ∃ id after, (atDepth limits (depth + 2) script context).Ends before (.ok id) after ∧
      NewNumber before.store after.store id value ∧ after.Rooted ∧
        table.index < after.store.tables.size := by
  have answers : Formula.Answers (atDepth limits (depth + 2) script context) context before
      (.ok value) := by
    cases written with
    | digits span n => exact Formula.answers_make n span context before
    | negative span place n =>
        have operand : Formula.Answers (atDepth limits (depth + 1) (.number place (.int n)) context)
            context before (.ok n) := Formula.answers_make n place context before
        exact Formula.answers_unary operand .minus span
  obtain ⟨id, after, ends, yields⟩ := answers
  obtain ⟨place, holds⟩ := yields.holds
  refine ⟨id, after, ends, ⟨yields.extension, yields.fresh, yields.inside, ?_⟩,
    rooted_of_ends rooted named inside ends⟩
  unfold Store.scalar?
  rw [holds]
  rfl

theorem WritesStep.evaluates {step : Option Script} (written : WritesStep step value) (depth : Nat)
    (rooted : before.Rooted) (named : context.table = some table)
    (inside : table.index < before.store.tables.size) :
    ∃ id after, (stepValue (atDepth limits (depth + 2)) step context).Ends before (.ok id) after ∧
      NewNumber before.store after.store id value ∧ after.Rooted ∧
        table.index < after.store.tables.size := by
  cases step with
  | some script => exact WritesInt.evaluates written depth rooted named inside
  | none =>
      have ends := ends_addObject { payload := .number (.int 1) } before
      have kept := Activity.Stays.keeps (stays_makeBare (Realm.closed_rooted before)
        (trivial : (Realm.rooted before).owns (.number (.int 1)))) ⟨rooted, .refl _⟩ ends
      refine ⟨_, _, Eval.Ends.lift ends, ⟨before.store.enlarges_addObject _, Nat.le_refl _, ?_, ?_⟩,
        kept.holds.1, kept.reaches table inside⟩
      · rw [Store.size_addObject]
        exact Nat.lt_succ_self _
      · obtain rfl := written
        unfold Store.scalar?
        rw [Store.object_addObject]

end

/-- Counting loops take as many turns as it takes steps to the limit.  On every machine that is
reached, let a loop count between whole numbers as they are written, in a context whose table is
there, and let there be rounds enough.  Before each evaluation of the body the name is set to a new
number, which is a step further than before, whatever the body did.  If all evaluations go on, there
are as many as there are steps, and the values are gathered from those that came to one, in order.
The first that does not go on is the last. -/
theorem turns_of_count (limits : Limits) (avoided : Moment → Prop) (machine : Machine)
    (reached : Machine.Reached limits avoided machine) (context : Context) (table : TableId)
    (named : context.table = some table) (inside : table.index < machine.store.tables.size)
    (span : Span) (name : String) (first limit : Script) (step : Option Script) (body : Script)
    (block : Bool) (a b s : Int) (firstWritten : WritesInt first a)
    (limitWritten : WritesInt limit b) (stepWritten : WritesStep step s) (nonzero : s ≠ 0)
    (enough : roundCount a b s < limits.rounds) (depth : Nat) :
    ∃ start endings after, machine.store.Enlarges start.store ∧
      Turns (fun k => SetsNew table name (.int (a + k * s)))
        (atDepth limits (depth + 2) body context) (roundCount a b s) 0 start endings after ∧
      (atDepth limits (depth + 3) (.count span name first limit step body block) context).result
        machine = loopEnd span block context after (gathered endings) ∧
      ((∀ ending ∈ endings, goesOn ending = true) → endings.length = roundCount a b s ∧
        gathered endings = .ok (.ok (endings.filterMap value?))) ∧
      ∀ k ending, endings[k]? = some ending → goesOn ending = false →
        endings.length = k + 1 := by
  obtain ⟨firstId, one, firstEnds, firstNew, rootedOne, insideOne⟩ :=
    firstWritten.evaluates depth reached.rooted named inside
  obtain ⟨limitId, two, limitEnds, limitNew, rootedTwo, insideTwo⟩ :=
    limitWritten.evaluates depth rootedOne named insideOne
  obtain ⟨stepId, start, stepEnds, stepNew, rooted, insideStart⟩ :=
    stepWritten.evaluates depth rootedTwo named insideTwo
  have enlarges := firstNew.enlarges.trans (limitNew.enlarges.trans stepNew.enlarges)
  have toTwo := firstNew.enlarges.extension.grows
  have toStart := limitNew.enlarges.extension.grows
  have onward := stepNew.enlarges.extension.grows
  have new : ∀ id, id = limitId ∨ id = stepId →
      machine.store.objects.size ≤ id.index ∧ id.index < start.store.objects.size := by
    rintro id (rfl | rfl)
    · exact ⟨Nat.le_trans toTwo limitNew.fresh, Nat.lt_of_lt_of_le limitNew.inside onward⟩
    · exact ⟨Nat.le_trans (Nat.le_trans toTwo toStart) stepNew.fresh, stepNew.inside⟩
  obtain ⟨hides, confines⟩ := reached.whole.hides_later enlarges.rest enlarges.extension.grows new
  obtain ⟨endings, after, turns, counted⟩ := turns_countRounds limits (depth + 2) name body a hides
    named (limitNew.later stepNew.enlarges) (.inl rfl) stepNew.held (.inr rfl) nonzero limits.rounds
    0 [] start ⟨confines, rooted, insideStart⟩ (Nat.zero_le _) enough
  refine ⟨start, endings, after, enlarges, turns, ?_,
    fun all => ⟨turns.length_of_goesOn all, gathered_of_goesOn all⟩,
    fun _ _ here stops => turns.length_of_stops here stops⟩
  have firstNow := firstNew.later (limitNew.enlarges.trans stepNew.enlarges)
  have zero : a + ((0 : Nat) : Int) * s = a := by simp
  have plain : (gathered endings).map (Except.map (([] : List ObjectId).reverse ++ ·)) =
      gathered endings := by
    rcases gathered endings with cause | interrupt | values <;> rfl
  rw [zero, plain] at counted
  change (countValue limits (atDepth limits (depth + 2)) span name first limit step body block
    context).result machine = _
  unfold countValue
  rw [Eval.result_bind_ended firstEnds, Eval.result_bind_ended limitEnds,
    Eval.result_bind_ended stepEnds, Eval.result_bind_ended (Eval.Ends.lift (ends_scalar firstNow)),
    Eval.result_bind_ended (Eval.Ends.lift (ends_scalar stepNew.held)),
    Eval.result_bind_ended (Eval.ends_settle (Formula.ge_int s 0) start)]
  exact result_loopEnd counted span block context

/-- From five to zero in steps of minus two there are three turns, all of which are skipped. -/
theorem turns_of_count_down :
    ∃ start endings after, endings.length = 3 ∧
      Turns (fun k => SetsNew ⟨0⟩ "i" (.int (5 + k * (-2)))) (atDepth .standard 2 (.skip default)
        (outermost (.initial {} []))) 3 0 start endings after ∧
      (atDepth .standard 3 (.count default "i" (.number default (.int 5))
        (.number default (.int 0)) (some (.unary default .minus (.number default (.int 2))))
        (.skip default) true) (outermost (.initial {} []))).result (.initial {} []) =
          (.ok (.ok Store.nullId), after) := by
  have three : roundCount 5 0 (-2) = 3 := by
    norm_num [roundCount]
    rfl
  have step : WritesStep (some (.unary default .minus (.number default (.int 2)))) (-2) :=
    .negative default default 2
  obtain ⟨start, endings, after, _, turns, result, counted, _⟩ :=
    turns_of_count .standard (fun _ => False) (.initial {} []) (.between (.start {} []))
      (outermost (.initial {} [])) ⟨0⟩ rfl (by decide) default "i" _ _ _ (.skip default) true 5 0
      (-2) (.digits default 5) (.digits default 0) step (by decide) (by rw [three]; decide) 0
  rw [three] at turns counted
  obtain ⟨length, values⟩ := counted (turns.goesOn_of_body fun ready => rfl)
  exact ⟨start, endings, after, length, turns, by rw [result, values]; rfl⟩

end Evaluator

end Lingo
