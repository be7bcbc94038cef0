/-
Where the names in a function are looked for.

Whoever reads a name gets a copy of its value that is claimed by the context of the reader.  So a
function that is called by its name looks for all names that its own table does not hold where the
caller would look for them, and not where it was defined.
-/

import Lingo.Proofs.Eval.Bodies
import Lingo.Proofs.Eval.Lineage

namespace Lingo

namespace Evaluator

open Activity

variable {context : Context} {before after : Machine} {id : ObjectId}

/-! ### Function values -/

theorem within_findName (span : Span) (name : String) (owner : Option String) (context : Context) :
    (findName span name owner context).Within .still := by
  cases owner with
  | none => exact Eval.Within.lift (within_lookup context name)
  | some moduleName =>
      apply Eval.Within.after (within_module? moduleName)
      intro found
      cases found with
      | none => exact Eval.within_fail _
      | some table => exact Eval.Within.after within_store fun _ => Eval.within_pure _

/-- Whoever reads a name gets a copy of its value, claimed by the context of the reader. -/
theorem claimed_accessValue {span : Span} {name : String} {owner : Option String}
    (ends : (accessValue span name owner context).Ends before (.ok id) after) :
    ∃ named, (findName span name owner context).Ends before (.ok (some named)) before ∧
      after.store.object id =
        { before.store.object named with
          start := some span.start, stop := some span.stop, context := some context } := by
  obtain ⟨outcome, middle, finds, retrieves⟩ := Eval.ends_bind_iff.mp ends
  cases outcome with
  | error interrupt => cases retrieves
  | ok found =>
      cases found with
      | none => cases retrieves
      | some named =>
          have still : before = middle :=
            eq_of_still (within_findName span name owner context) finds
          subst still
          have copied : (liftM (copy named) >>= fun copied => liftM (do
              setPlace copied span
              setContext copied context
              return copied) : Eval ObjectId).Ends before (.ok id) after := by
            rw [← Eval.lift_bind]
            exact retrieves
          obtain ⟨outcome, _, copies, claims⟩ := Eval.ends_bind_iff.mp copied
          have value : before.store.IsValue named := by
            cases outcome with
            | ok fresh => exact isValue_of_copy (ends_of_lift copies)
            | error interrupt => cases claims
          obtain ⟨fresh, reached, ends, object⟩ := ends_retrieve value span context
          have same := (Eval.Ends.lift ends).symm.trans retrieves
          cases same
          exact ⟨named, finds, object⟩

end Evaluator

/-! ### Bodies of functions -/

open Evaluator in
/-- The body of a function is evaluated in a new table.  Its parent is the table of the context by
which the function is claimed. -/
theorem Moment.Opens.parent {limits : Limits} {call body : Moment} {function : Object}
    {values : List ObjectId} {given : List (String × Slot)} {closure : Closure}
    {outer : Context} (opens : call.Opens limits body)
    (executes : call.job = .execution function values given)
    (payload : function.payload = .function closure) (claimed : function.context = some outer)
    (rooted : call.machine.Rooted)
    (inside : ∀ table, outer.table = some table → table.index < call.machine.store.tables.size) :
    ∃ frame, frame.table = some ⟨call.machine.store.tables.size⟩ ∧
      body.job = .visit closure.body (frame :: outer) ∧ body.machine.Rooted ∧
      call.machine.store.tables.size < body.machine.store.tables.size ∧
      (body.machine.store.table ⟨call.machine.store.tables.size⟩).parent = outer.table := by
  obtain ⟨depth, job, before⟩ := call
  cases executes
  obtain ⟨known, ready, claimedToo, binds, rfl⟩ := opens.binds payload
  have same := claimed.symm.trans claimedToo
  cases same
  let own : TableId := ⟨before.store.tables.size⟩
  let context : Context := callFrame before function closure :: outer
  let entered : Machine := entering before closure outer given
  have grown : own.index < entered.store.tables.size := before.store.tables.lt_size_push _
  have added : (before.withStore (before.store.addTable { parent := outer.table }).2).Rooted :=
    Machine.Rooted.addTable rooted inside
  have enteredRooted : entered.Rooted := ⟨added.nested, added.placed, added.globals, added.modules⟩
  -- Binding the parameters keeps the parent of the table.
  have binding : ∀ {machine : Machine}, (Realm.rooted entered).Admits machine context →
      ∀ bindings : List (String × Slot),
        (bindAll context bindings).Stays (.rooted entered) machine fun _ _ => True :=
    fun admits bindings => stays_bindAll (Realm.closed_rooted entered) admits
      (binds_rooted _ _) fun pair _ => takes_rooted _ pair.2
  have admits : (Realm.rooted entered).Admits entered context := by
    refine ⟨fun table here => ?_, trivial⟩
    cases here
    exact grown
  obtain ⟨middle, boundFirst, boundLast⟩ := binds.bound
  have keeps := (binding admits _).keeps ⟨enteredRooted, .refl _⟩ boundFirst
  obtain ⟨readyRooted, descends⟩ :=
    ((binding (admits.keeps keeps) _).keeps keeps.holds boundLast).holds
  refine ⟨callFrame before function closure, rfl, rfl, readyRooted,
    Nat.lt_of_lt_of_le grown descends.tables, ?_⟩
  rw [descends.parents own grown]
  exact congrArg Table.parent (before.store.tables.read_push_new { parent := outer.table })

/-! ### Calls by name -/

open Evaluator in
theorem claimed_by_caller {limits : Limits} {start call : Moment} {span place : Span}
    {name : String} {owner : Option String} {arguments : List Script}
    {optional : List (String × Script)} {context : Context} {function : Object}
    {values : List ObjectId} {given : List (String × Slot)} (whole : start.machine.Whole)
    (visits : start.job = .visit (.call span (.access place name owner) arguments optional) context)
    (meets : start.Meets limits call) (level : call.depth + 1 = start.depth)
    (executes : call.job = .execution function values given) :
    (∃ named, (findName place name owner context).Ends start.machine (.ok (some named))
        start.machine ∧ (start.machine.store.object named).payload = function.payload) ∧
      function.context = some context := by
  obtain ⟨depth, job, before⟩ := start
  cases visits
  cases level
  have isCall : call.isCall := by
    unfold Moment.isCall
    rw [executes]
  obtain ⟨called, object, values, ready, known, given, addresses, _, supplies, job⟩ :=
    meets_call meets isCall rfl
  rw [addresses.kept whole supplies] at job
  have same := executes.symm.trans job
  cases same
  cases addresses with
  | @intro id visited _ _ reads value evaluates =>
      generalize call.depth = depth at reads
      cases depth with
      | zero => cases reads
      | succ depth =>
          obtain ⟨named, finds, object⟩ := claimed_accessValue reads
          rw [object]
          exact ⟨⟨named, finds, rfl⟩, rfl⟩

open Evaluator in
/-- Functions are dynamically scoped.  A definition puts the context in which it stands into the
function value.  But whoever calls a function by its name executes a copy that is claimed by the
context of the caller, whatever the arguments do.  The body of the function is evaluated in a new
table, and as long as this goes on a name is what the new table holds under it, or else what the
name is to the caller at that moment. -/
theorem names_are_found_through_callers (limits : Limits) :
    (∀ depth span name parameters optional body yields context before id after,
      (atDepth limits (depth + 1) (.function span name parameters optional body yields)
        context).Ends before (.ok id) after →
      (after.store.object id).context = some context ∧
        ∃ closure, (after.store.object id).payload = .function closure ∧ closure.body = body) ∧
    ∀ (avoided : Moment → Prop) (start call body : Moment) span place name owner arguments optional
      context caller function values given closure,
      Machine.Reached limits avoided start.machine →
      start.job = .visit (.call span (.access place name owner) arguments optional) context →
      context.table = some caller → caller.index < start.machine.store.tables.size →
      start.Meets limits call → call.depth + 1 = start.depth →
      call.job = .execution function values given → function.payload = .function closure →
      call.Opens limits body →
      (∃ named, (findName place name owner context).Ends start.machine (.ok (some named))
          start.machine ∧ (start.machine.store.object named).payload = .function closure) ∧
        function.context = some context ∧
        ∃ frame own, frame.table = some own ∧ start.machine.store.tables.size ≤ own.index ∧
          body.job = .visit closure.body (frame :: context) ∧
          ∀ later, body.Meets limits later → ∀ wanted,
            later.machine.store.lookup own wanted =
              ((later.machine.store.table own).own? wanted).join.or
                (later.machine.store.lookup caller wanted) := by
  constructor
  · intro depth span name parameters optional body yields context before id after ends
    obtain ⟨_, _, _, made, _⟩ := made_functionValue ends
    rw [made]
    exact ⟨rfl, _, rfl, rfl⟩
  · intro avoided start call body span place name owner arguments optional context caller function
      values given closure reached visits table inside meets level executes payload opens
    obtain ⟨found, claimed⟩ := claimed_by_caller reached.whole visits meets level executes
    have placed : start.job.Placed start.machine := by
      rw [visits]
      intro other here
      cases table.symm.trans here
      exact inside
    obtain ⟨rooted, descends⟩ := meets.rooted reached.rooted placed
    have callerInside : ∀ other, context.table = some other →
        other.index < call.machine.store.tables.size := by
      intro other here
      cases table.symm.trans here
      exact Nat.lt_of_lt_of_le inside descends.tables
    obtain ⟨frame, own, bodyVisits, bodyRooted, new, parent⟩ :=
      opens.parent executes payload claimed rooted callerInside
    rw [payload] at found
    refine ⟨found, claimed, frame, _, own, descends.tables, bodyVisits, ?_⟩
    intro later met wanted
    have bodyPlaced : body.job.Placed body.machine := by
      rw [bodyVisits]
      intro other here
      cases own.symm.trans here
      exact new
    obtain ⟨laterRooted, further⟩ := met.rooted bodyRooted bodyPlaced
    have kept := (further.parents ⟨call.machine.store.tables.size⟩ new).trans parent
    rw [laterRooted.nested.lookup_eq, kept, table]
    rfl

/-- Whether a function is called by its name, with nothing given to it, where names are first looked
for in a table. -/
def Moment.callsFrom (name : String) (table : TableId) (moment : Moment) : Bool :=
  match moment.depth, moment.job with
  | _ + 2, .visit (.call _ (.access _ called none) [] []) context =>
      called == name && context.table == some table
  | _, _ => false

/-- If halting at certain moments makes a text end abnormally that ends without, one is met, on the
machine that is left. -/
theorem Machine.exists_met_of_halted {limits : Limits} {source : Source} {before : Machine}
    (test : Moment → Bool) {halts : Halts}
    (stops : halts = fun moment => if test moment then some .tooDeep else none)
    (halted : ((course limits source "" halts).result before).1.isOk = false)
    (ends : ((course limits source "" .nowhere).result before).1.isOk = true) :
    ∃ moment, test moment = true ∧
      (course limits source "").Meets before (fun _ => False) moment ∧
      ((course limits source "" halts).result before).2 = moment.machine := by
  have stopsAt : ∀ moment, halts moment ≠ none → test moment = true := by
    intro moment stopped
    by_contra other
    rw [stops] at stopped
    exact stopped (if_neg other)
  rcases heeds_course source "" before (test · = true) with ⟨moment, tested, met⟩ | ignores
  · have result := met halts .tooDeep (by rw [stops]; exact if_pos tested) fun other stopped =>
      .inr (stopsAt other stopped)
    exact ⟨moment, tested, met.mono fun _ never => never.elim, congrArg Prod.snd result⟩
  · rw [ignores halts stopsAt, ends] at halted
    cases halted

/-- A function is called amid another one, of which a parameter is named like a global variable. -/
theorem names_are_found_through_callers_nested :
    ∃ start call body own,
      (Machine.course .standard { name := "<stdin>", text :=
        "var x = 1; func f() -> x; func g(x) -> f(); g(2)" } "").Meets (.initial {} [])
          (fun _ => False) start ∧
      start.callsFrom "f" ⟨1⟩ = true ∧
      start.machine.store.lookup ⟨1⟩ "x" ≠
        start.machine.store.lookup start.machine.globals "x" ∧
      start.Meets .standard call ∧ call.Opens .standard body ∧
      ∀ later, body.Meets .standard later →
        later.machine.store.lookup own "x" =
          ((later.machine.store.table own).own? "x").join.or
            (later.machine.store.lookup ⟨1⟩ "x") := by
  obtain ⟨start, tested, met, left⟩ :=
    @Machine.exists_met_of_halted .standard { name := "<stdin>", text :=
      "var x = 1; func f() -> x; func g(x) -> f(); g(2)" } (.initial {} [])
      (Moment.callsFrom "f" ⟨1⟩) _ rfl (by decide +kernel) (by decide +kernel)
  obtain ⟨found, differs, inside, bare⟩ : start.machine.store.lookup ⟨1⟩ "f" = some ⟨37⟩ ∧
      start.machine.store.lookup ⟨1⟩ "x" ≠
        start.machine.store.lookup start.machine.globals "x" ∧
      1 < start.machine.store.tables.size ∧
      (start.machine.store.object ⟨37⟩).payload.closure?.map
        (fun closure => (closure.parameters, closure.optional)) = some ([], []) := by
    rw [← left]
    decide +kernel
  have reached : Machine.Reached .standard (fun _ => False) start.machine :=
    .amid (.start {} []) met
  clear left
  obtain ⟨depth, job, machine⟩ := start
  have calls := tested
  unfold Moment.callsFrom at calls
  split at calls
  next depth span place called context level visits =>
    dsimp only at level visits found differs inside bare reached
    subst level visits
    obtain ⟨rfl, here⟩ : called = "f" ∧ context.table = some ⟨1⟩ := by simpa using calls
    cases known : (machine.store.object ⟨37⟩).payload with
    | function closure =>
        rw [known] at bare
        obtain ⟨parameters, optional⟩ := Prod.mk.inj (Option.some.inj bare)
        obtain ⟨_, function, ready, body, addresses, payload, opens⟩ :=
          exists_opens_of_name .standard depth here found known parameters optional place span
        have meets := addresses.executes reached.whole payload (.nil ready)
        obtain ⟨_, _, _, own, _, _, _, through⟩ :=
          (names_are_found_through_callers .standard).2 _ _ _ body _ _ _ _ _ _ _ _ _ _ _ _
            reached rfl here inside meets rfl rfl payload opens
        exact ⟨_, _, body, own, met, tested, differs, meets, opens,
          fun later followed => through later followed "x"⟩
    | _ =>
        rw [known] at bare
        cases bare
  · cases calls

def Machine.lastNumber? (machine : Machine) (text : String) : Option Int := do
  let (.number (.int value), _) ← machine.lastValue? text | none
  return value

/-- A function that is called by another one finds the parameters of that function. -/
theorem parameters_of_callers_are_found :
    let machine := Machine.afterText "var x = 1; func f() -> x; func g(x) -> f()"
    machine.lastNumber? "f()" = some 1 ∧ machine.lastNumber? "g(2)" = some 2 := by
  decide +kernel

end Lingo
