/-
Reports that can be shown.

A report is shown at its place, with a line for each activity that was under way.  All of these
places are known as long as complaints come from values that some piece of script has claimed.  Two
operands are claimed by none: the constant for no value, and the factor by which a minus sign
multiplies.
-/

import Lingo.Proofs.Eval.Confinement

namespace Lingo

/-! ### Showing a fault -/

/-- Of every activity but the outermost it is known where it was entered. -/
def Context.Grounded (context : Context) : Prop :=
  ∀ frame ∈ context.dropLast, frame.entered.isSome = true

namespace Context

theorem grounded_single (frame : Frame) : Grounded [frame] :=
  List.forall_mem_nil _

theorem Grounded.cons {frame : Frame} {outer : Context} (grounded : outer.Grounded)
    (entered : frame.entered.isSome = true) : Grounded (frame :: outer) := by
  cases outer with
  | nil => exact grounded_single frame
  | cons next rest => exact List.forall_mem_cons.mpr ⟨entered, grounded⟩

end Context

namespace Fault

theorem isSome_traceLines {context : Context} (grounded : context.Grounded) :
    ∀ position : Position, (traceLines (some position) context.trace).isSome = true := by
  induction context with
  | nil => exact fun _ => rfl
  | cons frame outer ih =>
      intro position
      cases outer with
      | nil => rfl
      | cons next rest =>
          obtain ⟨entered, others⟩ := List.forall_mem_cons.mp grounded
          obtain ⟨place, known⟩ := Option.isSome_iff_exists.mp entered
          obtain ⟨lines, shown⟩ := Option.isSome_iff_exists.mp (ih others place)
          change (traceLines frame.entered (Context.trace (next :: rest)) >>= fun lines =>
            pure (lines ++ traceLine position frame.name)).isSome = true
          rw [known, shown]
          rfl

def IsShown (fault : Fault) : Prop :=
  fault.start.isSome = true → fault.stop.isSome = true → fault.message?.isSome = true

theorem message?_of_unplaced {fault : Fault} (unplaced : fault.start = none ∨ fault.stop = none) :
    fault.message? = none := by
  obtain ⟨cause, start, stop⟩ := fault
  rcases unplaced with missing | missing
  · cases missing
    rfl
  · cases missing
    cases start <;> rfl

theorem isSome_message?_complaint (complaint : Complaint) {start stop : Option Position}
    {context : Option Context} (starts : start.isSome = true) (stops : stop.isSome = true)
    (grounded : ∀ known, context = some known → known.Grounded) :
    (Operation.fault complaint start stop context).message?.isSome = true := by
  obtain ⟨first, rfl⟩ := Option.isSome_iff_exists.mp starts
  obtain ⟨last, rfl⟩ := Option.isSome_iff_exists.mp stops
  have shown : (traceLines (some first) ((context.map Context.trace).getD [])).isSome = true := by
    cases context with
    | none => rfl
    | some known => exact isSome_traceLines (grounded known rfl) first
  obtain ⟨lines, known⟩ := Option.isSome_iff_exists.mp shown
  unfold message? Operation.fault
  dsimp only [Option.bind_eq_bind, Option.bind_some]
  rw [known]
  rfl

end Fault

/-! ### Operators that refuse -/

namespace Operation

/-- An operator complains at the right operand, or from the left one to the right one, and in the
context of the left one. -/
theorem exists_of_refused {store : Store} {op : BinaryOp} {left right : Object} {refusal : Fault}
    (refused : binary store op left right = .ok (.error refusal)) :
    ∃ complaint, ∃ start ∈ [left.start, right.start],
      refusal = fault complaint start right.stop left.context := by
  have illegally : (Except.ok (Except.error (illegal left right)) :
      Except Crash (Except Fault Yield)) = .ok (.error refusal) →
        ∃ complaint, ∃ start ∈ [left.start, right.start],
          refusal = fault complaint start right.stop left.context := by
    intro same
    cases same
    exact ⟨_, _, List.mem_cons_self, rfl⟩
  unfold binary at refused
  split at refused
  next a b _ _ =>
    unfold numbers at refused
    split at refused
    · cases refused
      exact ⟨_, _, List.mem_cons_of_mem _ List.mem_cons_self, rfl⟩
    · cases outcome : scalars op a b with
      | error cause =>
          rw [outcome] at refused
          cases refused
      | ok held =>
          rw [outcome] at refused
          cases refused
  next =>
    split at refused
    · cases refused
    · exact illegally refused
  next a b _ _ =>
    split at refused
    · cases outcome : Scalar.repeated a b with
      | error cause =>
          rw [outcome] at refused
          cases refused
      | ok text =>
          rw [outcome] at refused
          cases refused
    · exact illegally refused
  next =>
    split at refused
    · cases refused
    · exact illegally refused
  next =>
    split at refused
    · dsimp only at refused
      split at refused
      · cases refused
      · cases refused
        exact ⟨_, _, List.mem_cons_of_mem _ List.mem_cons_self, rfl⟩
    · exact illegally refused
  next => exact illegally refused

end Operation

def Object.Placed (object : Object) : Prop :=
  object.start.isSome = true ∧ object.stop.isSome = true

def Script.isMinus : Script → Bool
  | .unary _ .minus _ => true
  | _ => false

namespace Evaluator

/-- An operator that refuses complains at its operands, unless it is a minus sign, and in the
context of one of them. -/
theorem Refuses.exists_fault {self : Evaluator} {context : Context} {before after : Machine}
    {script : Script} {operands : List ObjectId} {fault : Fault}
    (refuses : self.Refuses context before script operands fault after) :
    ∃ complaint start stop, ∃ id ∈ operands,
      fault = Operation.fault complaint start stop (after.store.object id).context ∧
        (script.isMinus = false → (∀ id ∈ operands, (after.store.object id).Placed) →
          start.isSome = true ∧ stop.isSome = true) := by
  cases refuses with
  | @binary span op left right a b fault middle after _ _ refused =>
      obtain ⟨complaint, start, among, rfl⟩ := Operation.exists_of_refused refused
      refine ⟨complaint, start, _, a, List.mem_cons_self, rfl, fun _ placed => ?_⟩
      have placedLeft := placed a List.mem_cons_self
      have placedRight := placed b (List.mem_cons_of_mem _ List.mem_cons_self)
      refine ⟨?_, placedRight.2⟩
      rcases List.mem_cons.mp among with rfl | among
      · exact placedLeft.1
      · rw [List.mem_singleton.mp among]
        exact placedRight.1
  | @minus span operand id fault after _ refused =>
      obtain ⟨complaint, start, _, rfl⟩ := Operation.exists_of_refused refused
      exact ⟨complaint, start, _, id, List.mem_cons_self, rfl, fun other => by cases other⟩
  | @negation span operand id fault after _ refused =>
      unfold Operation.negation at refused
      split at refused <;> cases refused
      exact ⟨_, _, _, id, List.mem_cons_self, rfl, fun _ placed => placed id List.mem_cons_self⟩

end Evaluator

/-! ### The realm of values with places -/

/-- Everything refers to what is there, and objects belong to contexts that are grounded. -/
structure Machine.Grounded (machine : Machine) : Prop where
  whole : machine.Whole
  contexts : ∀ id context, (machine.store.object id).context = some context → context.Grounded

/-- All objects that are there may be in hand.  Pieces of script give places to the objects that
they claim, and contexts are grounded. -/
def Realm.located (reports : Fault → Prop) : Realm where
  knows machine id := id.index < machine.store.objects.size
  owns _ := True
  reaches _ _ := True
  holds machine := machine.Grounded
  places := Object.Placed
  grounds := Context.Grounded
  reports := reports

namespace Realm

variable {reports : Fault → Prop} {machine later : Machine}

theorem takes_confined {slot : Slot} (takes : (located reports).Takes machine slot) :
    (confined machine fun _ => False).Takes machine slot :=
  fun id same => ⟨takes id same, fun never => never⟩

theorem keeps_located (grounded : machine.Grounded)
    (confines : machine.Confines (fun _ => False) later)
    (objects : ∀ id, later.store.object id = machine.store.object id ∨
      ((machine.store.object id).Placed → (later.store.object id).Placed) ∧
        ∀ context, (later.store.object id).context = some context → context.Grounded) :
    (located reports).Keeps machine later where
  holds :=
    { whole := grounded.whole.of_confines confines
      contexts := by
        intro id context claimed
        rcases objects id with same | ⟨_, contexts⟩
        · rw [same] at claimed
          exact grounded.contexts id context claimed
        · exact contexts context claimed }
  knows _ known := Nat.lt_of_lt_of_le known confines.objects
  reaches _ _ := trivial
  places id placed := by
    rcases objects id with same | ⟨kept, _⟩
    · rw [same]
      exact placed
    · exact kept placed

theorem keeps_located_objects (grounded : machine.Grounded)
    (keeps : (confined machine fun _ => False).Keeps machine later)
    (objects : later.store.objects = machine.store.objects) :
    (located reports).Keeps machine later := by
  refine keeps_located grounded keeps.holds fun id => .inl ?_
  unfold Store.object
  rw [objects]

theorem keeps_located_modifyObject (grounded : machine.Grounded) (id : ObjectId)
    {change : Object → Object} (kept : ∀ object : Object, object.Placed → (change object).Placed)
    (contexts : ∀ context, (change (machine.store.object id)).context = some context →
      context.Grounded) :
    (located reports).Keeps machine
      (machine.withStore (machine.store.modifyObject id change)) := by
  have keeps : (confined machine fun _ => False).Keeps machine
      (machine.withStore (machine.store.modifyObject id change)) :=
    keeps_confined_modifyObject grounded.whole.confines (fun never => never) change
  refine keeps_located grounded keeps.holds fun other => ?_
  rcases machine.store.objects.read_modify_cases id.index change other.index with
    same | ⟨here, _, changed⟩
  · exact .inl same
  · right
    unfold Store.object Store.modifyObject
    rw [changed, ← here]
    exact ⟨kept _, contexts⟩

variable (shown : ∀ fault : Fault, fault.message?.isSome = true → reports fault)

include shown

theorem speaks_located : (located reports).Speaks where
  placed starts stops := ⟨starts, stops⟩
  claimed _ placed := placed
  program _ := Context.grounded_single _
  entered _ _ placed grounded := Context.Grounded.cons grounded placed.1
  complains complaint placed grounded :=
    shown _ (Fault.isSome_message?_complaint complaint placed.1 placed.2 grounded)
  refuses _ _ _ := shown _ rfl
  rejects _ := shown _ rfl

theorem shares_located : (located reports).Shares where
  toSpeaks := speaks_located shown
  null {machine} grounded := Nat.lt_of_lt_of_le (by decide) grounded.whole.preset
  number _ := trivial
  text _ := trivial
  object grounded _ := ⟨trivial, grounded.contexts _, fun _ _ _ _ _ => trivial⟩
  addObject {machine object} grounded fits := by
    have keeps := keeps_confined_addObject grounded.whole.hides grounded.whole.confines object
    refine ⟨keeps_located grounded keeps.holds fun id => ?_, ?_⟩
    · rcases machine.store.objects.read_push_cases object id.index with same | ⟨new, made⟩
      · exact .inl same
      · right
        unfold Store.object Store.addObject
        rw [made, Heap.read_of_le (Nat.le_of_eq new.symm)]
        exact ⟨fun placed => absurd placed.1 Bool.false_ne_true, fits.grounds⟩
    · exact Heap.lt_size_push _ _
  claim {machine id change} grounded _ _ kept fits :=
    keeps_located_modifyObject grounded id kept fits.grounds
  place {machine id} span grounded known := by
    rw [Store.object_modifyObject _ _ known]
    exact ⟨rfl, rfl⟩
  addList grounded takes :=
    ⟨keeps_located_objects grounded ((closed_confined grounded.whole.hides).addList
      grounded.whole.confines fun slot among => takes_confined (takes slot among)).1 rfl, trivial⟩
  items {machine id} grounded _ slot among value same :=
    grounded.whole.refers.items _ value (same ▸ among)
  addDict grounded takes :=
    ⟨keeps_located_objects grounded ((closed_confined grounded.whole.hides).addDict
      grounded.whole.confines fun entry among => takes_confined (takes entry among)).1 rfl,
      trivial⟩
  addDefaults grounded takes :=
    ⟨keeps_located_objects grounded ((closed_confined grounded.whole.hides).addDefaults
      grounded.whole.confines fun slot among => takes_confined (takes slot among)).1 rfl,
      fun _ _ => trivial⟩
  defaultValues grounded _ slot among value same :=
    grounded.whole.refers.defaultValues _ value (same ▸ among)
  modifyDefaults grounded _ takes :=
    keeps_located_objects grounded ((closed_confined grounded.whole.hides).modifyDefaults
      grounded.whole.confines trivial fun slot among => takes_confined (takes slot among)) rfl
  lookup grounded _ found := grounded.whole.refers.of_lookup found
  modules _ _ := trivial
  assign name grounded _ known _ :=
    keeps_located_objects grounded ((closed_confined grounded.whole.hides).assign name
      grounded.whole.confines trivial ⟨known, fun never => never⟩ trivial) rfl
  enter grounded _ :=
    ⟨keeps_located_objects grounded ((closed_confined grounded.whole.hides).enter
      grounded.whole.confines fun _ _ => trivial).1 rfl, trivial⟩
  truth {machine} grounded truth := by
    apply takes_object
    refine Nat.lt_of_lt_of_le ?_ grounded.whole.preset
    cases truth <;> decide
  reached _ _ := trivial
  ownsList _ := trivial
  entries grounded dict entry among := grounded.whole.refers.entries dict entry among
  modifyItems grounded takes :=
    keeps_located_objects grounded ((shares_confined grounded.whole.hides).modifyItems
      grounded.whole.confines fun slot among => takes_confined (takes slot among)) rfl
  setEntry {machine} dict text key value grounded takes := by
    exact keeps_located_objects grounded ((shares_confined grounded.whole.hides).setEntry dict text
      key grounded.whole.confines (takes_confined takes)) (machine.store.objects_setEntry ..)
  reckon {machine id n} grounded _ _ _ :=
    keeps_located_modifyObject grounded id (fun _ placed => placed) (grounded.contexts id)
  aside grounded same globals :=
    keeps_located_objects grounded ((shares_confined grounded.whole.hides).aside
      grounded.whole.confines same globals) (congrArg Store.objects same)
  addTable grounded known :=
    keeps_located_objects grounded ((shares_confined grounded.whole.hides).addTable
      grounded.whole.confines fun name id own => ⟨known name id own, fun never => never⟩) rfl
  renew grounded :=
    keeps_located_objects grounded ((shares_confined grounded.whole.hides).renew
      grounded.whole.confines) rfl

theorem hosts_located : (located reports).Hosts :=
  ⟨(shares_located shown).toClosed, (shares_located shown).serves, trivial, fun _ => trivial⟩

end Realm

/-! ### What may be refused -/

/-- At a moment an operator refuses its operands with some fault.  It is a minus sign, or the
constant for no value is an operand and has no place. -/
def Moment.RefusesUnplaced (limits : Limits) (fault : Fault) (moment : Moment) : Prop :=
  ∃ depth script context operands after, moment.depth = depth + 1 ∧
    moment.job = .visit script context ∧
    (Evaluator.atDepth limits depth).Refuses context moment.machine script operands fault after ∧
    (script.isMinus = true ∨
      Store.nullId ∈ operands ∧ ¬(after.store.object Store.nullId).Placed)

namespace Realm

theorem allows_placed (limits : Limits) (moment : Moment) :
    (located Fault.IsShown).Allows limits moment := by
  obtain ⟨depth, job, machine⟩ := moment
  cases job with
  | visit script context =>
      intro _ _
      refine ⟨fun _ _ _ _ => trivial, fun grounded _ refuses starts stops => ?_⟩
      obtain ⟨complaint, start, stop, id, _, rfl, _⟩ := refuses.exists_fault
      exact Fault.isSome_message?_complaint complaint starts stops (grounded.contexts id)
  | execution function arguments given => exact fun _ _ _ => trivial

/-- Wherever no operator refuses an operand without a place with a certain fault, that fault can be
shown. -/
theorem allows_unless_unplaced {limits : Limits} {fault : Fault} {moment : Moment}
    (unrefused : ¬moment.RefusesUnplaced limits fault) :
    (located fun other => other = fault → fault.message?.isSome = true).Allows limits moment := by
  obtain ⟨depth, job, machine⟩ := moment
  cases job with
  | execution function arguments given => exact fun _ _ _ => trivial
  | visit script context =>
      intro below nested
      refine ⟨fun _ _ _ _ => trivial, ?_⟩
      rintro operands other after grounded yields refuses rfl
      have placed : script.isMinus = false ∧
          ∀ id ∈ operands, (after.store.object id).Placed := by
        constructor
        · refine Bool.eq_false_iff.mpr fun minus => unrefused ?_
          exact ⟨below, script, context, operands, after, nested, rfl, refuses, .inl minus⟩
        · intro id among
          rcases (yields id among).2 with rfl | placed
          · refine Classical.byContradiction fun unplaced => unrefused ?_
            exact ⟨below, script, context, operands, after, nested, rfl, refuses,
              .inr ⟨among, unplaced⟩⟩
          · exact placed
      obtain ⟨complaint, start, stop, id, _, rfl, located⟩ := refuses.exists_fault
      obtain ⟨starts, stops⟩ := located placed.1 placed.2
      exact Fault.isSome_message?_complaint complaint starts stops (grounded.contexts id)

end Realm

/-! ### Sessions -/

namespace Machine

variable {limits : Limits} {before machine : Machine}

theorem grounded_initial (folder : Folder) (input : List String) :
    (Machine.initial folder input).Grounded where
  whole := whole_initial folder input
  contexts id context claimed := by
    have impossible := (Store.context_initial id).symm.trans claimed
    cases impossible

theorem Session.grounded (session : Session limits (fun _ => False) machine) : machine.Grounded :=
  session.holds (Realm.hosts_located fun _ shown _ _ => shown) grounded_initial fun moment _ =>
    Realm.allows_placed limits moment

variable {source : Source} {moduleName : String} {fault : Fault} {after : Machine}

variable (grounded : before.Grounded)
  (ends : (course limits source moduleName .nowhere).Ends before (.ok (.error fault)) after)

include grounded ends

theorem isShown_of_ends : fault.IsShown :=
  reports_of_ends (Realm.hosts_located fun _ shown _ _ => shown)
    (fun moment _ => Realm.allows_placed limits moment) grounded ends

/-- A fault that comes of a text can be shown, or it came up where an operator refused an operand
without a place. -/
theorem isSome_message?_or_refuses :
    fault.message?.isSome = true ∨ ∃ moment,
      (course limits source moduleName).Meets before (fun _ => False) moment ∧
        moment.RefusesUnplaced limits fault := by
  rcases heeds_course source moduleName before (Moment.RefusesUnplaced limits fault) with
    ⟨moment, refuses, meets⟩ | ignores
  · exact .inr ⟨moment, meets.mono fun _ never => never.elim, refuses⟩
  · -- No such operator came up, so halting there would have made no difference.
    have same := ignores (.among (Moment.RefusesUnplaced limits fault)) fun _ => Halts.of_among
    have hosts : (Realm.located fun other => other = fault →
        fault.message?.isSome = true).Hosts :=
      Realm.hosts_located fun _ shown same => same ▸ shown
    have shown := reports_of_ends hosts (fun moment goesOn =>
      Realm.allows_unless_unplaced (Halts.not_among goesOn)) grounded (same.trans ends)
    exact .inl (shown rfl)

end Machine

/-- What a text reports can be shown exactly if it has a place, and it has one unless it comes from
an operator that refused an operand without one: the constant for no value, or the factor of a minus
sign. -/
theorem reports_can_be_shown {limits : Limits} {before after : Machine}
    (session : Machine.Session limits (fun _ => False) before) (source : Source)
    (moduleName : String) {fault : Fault}
    (ends : (Machine.run limits source moduleName).Ends before (.error fault) after) :
    (fault.message? = none ↔ fault.start = none ∨ fault.stop = none) ∧
      (fault.message? = none → ∃ moment,
        (Machine.course limits source moduleName).Meets before (fun _ => False) moment ∧
          moment.RefusesUnplaced limits fault) := by
  have ended : (Machine.course limits source moduleName .nowhere).Ends before
      (.ok (.error fault)) after := by
    rw [Machine.course_nowhere]
    exact Eval.Ends.lift ends
  constructor
  · refine ⟨fun hidden => ?_, Fault.message?_of_unplaced⟩
    have shown := Machine.isShown_of_ends session.grounded ended
    unfold Fault.IsShown at shown
    rw [hidden] at shown
    cases starts : fault.start with
    | none => exact .inl rfl
    | some start =>
        cases stops : fault.stop with
        | none => exact .inr rfl
        | some stop =>
            rw [starts, stops] at shown
            exact absurd (shown rfl rfl) Bool.false_ne_true
  · intro hidden
    rcases Machine.isSome_message?_or_refuses session.grounded ended with shown | refused
    · rw [hidden] at shown
      cases shown
    · exact refused

/-! ### Two reports that cannot be shown -/

def Machine.faultOf? (text : String) : Option Fault :=
  match ((Machine.run .standard { name := "<stdin>", text } "").run.run (.initial {} [])).1 with
  | .ok (.error fault) => some fault
  | _ => none

theorem Machine.exists_ends_of_faultOf? {text : String} {test : Fault → Bool}
    (found : (faultOf? text).any test = true) :
    ∃ fault after, (Machine.run .standard { name := "<stdin>", text } "").Ends (.initial {} [])
      (.error fault) after ∧ test fault = true := by
  unfold faultOf? at found
  split at found
  next fault same => exact ⟨fault, _, Prod.ext same rfl, found⟩
  next => cases found

/-- No list can be added to the constant for no value, and no place can be given for that. -/
theorem reports_can_be_shown_nothing :
    ∃ fault after, (Machine.run .standard { name := "<stdin>", text := "(if 0: 1) + [1]" } "").Ends
        (.initial {} []) (.error fault) after ∧ fault.message? = none ∧ fault.start = none ∧
      ∃ moment, (Machine.course .standard { name := "<stdin>", text := "(if 0: 1) + [1]" }
          "").Meets (.initial {} []) (fun _ => False) moment ∧
        moment.RefusesUnplaced .standard fault := by
  obtain ⟨fault, after, ends, test⟩ := @Machine.exists_ends_of_faultOf? "(if 0: 1) + [1]"
    (fun fault => fault.start.isNone) (by decide +kernel)
  have unplaced := Option.isNone_iff_eq_none.mp test
  obtain ⟨shown, refused⟩ := reports_can_be_shown (.start {} []) _ "" ends
  have hidden := shown.mpr (.inl unplaced)
  exact ⟨fault, after, ends, hidden, unplaced, refused hidden⟩

/-- A minus sign in front of a list is refused, and the report cannot be shown. -/
theorem negated_list_cannot_be_shown :
    ∃ fault after, (Machine.run .standard { name := "<stdin>", text := "-[1]" } "").Ends
      (.initial {} []) (.error fault) after ∧ fault.cause.details = "Illegal operation" ∧
        fault.start.isSome = true ∧ fault.message? = none := by
  obtain ⟨fault, after, ends, test⟩ := @Machine.exists_ends_of_faultOf? "-[1]"
    (fun fault => fault.cause.details == "Illegal operation" && fault.start.isSome &&
      fault.stop.isNone) (by decide +kernel)
  obtain ⟨others, stop⟩ := Bool.and_eq_true_iff.mp test
  obtain ⟨details, start⟩ := Bool.and_eq_true_iff.mp others
  exact ⟨fault, after, ends, beq_iff_eq.mp details, start,
    Fault.message?_of_unplaced (.inr (Option.isNone_iff_eq_none.mp stop))⟩

end Lingo
