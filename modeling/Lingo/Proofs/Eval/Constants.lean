/-
The constants.

Every global table names three objects that all scripts share.  An evaluation can give their names
to other values, and there is one function that replaces the number in its argument.  Nothing else
that an evaluation does changes what the names stand for.
-/

import Lingo.Proofs.Eval.Elements
import Lingo.Proofs.Eval.Lineage
import Lingo.Proofs.Eval.Loading
import Lingo.Proofs.Eval.Sharing

namespace Lingo

variable {spoiled : Prop}

inductive Constant where
  | nothing
  | falsehood
  | truth
deriving DecidableEq, Repr

namespace Constant

def name : Constant → String
  | nothing => "None"
  | falsehood => "False"
  | truth => "True"

def id : Constant → ObjectId
  | nothing => Store.nullId
  | falsehood => Store.falseId
  | truth => Store.trueId

def value : Constant → Int
  | nothing => 0
  | falsehood => 0
  | truth => 1

def all : List Constant :=
  [nothing, falsehood, truth]

theorem mem_all (constant : Constant) : constant ∈ all := by
  cases constant <;> decide

theorem own?_startingNames (constant : Constant) :
    ({ symbols := startingNames } : Table).own? constant.name = some (some constant.id) := by
  cases constant <;> rfl

/-- What a constant holds: its own number or, if it may be spoiled, the factorial of that. -/
def Holds (spoiled : Prop) (constant : Constant) (payload : Payload) : Prop :=
  payload = .number (.int constant.value) ∨ spoiled ∧ payload = .number (.int 1)

theorem factorial_value (constant : Constant) : Library.factorial constant.value.toNat = 1 := by
  cases constant <;> rfl

theorem Holds.not_plain {constant : Constant} : ¬constant.Holds spoiled .plain := by
  rintro (own | ⟨_, one⟩)
  · cases own
  · cases one

/-- A constant that may be spoiled still holds one of its numbers when its factorial has replaced
the number that it held. -/
theorem Holds.factorial {constant : Constant} {n : Int} (allowed : spoiled)
    (holds : constant.Holds spoiled (.number (.int n))) :
    constant.Holds spoiled (.number (.int (Library.factorial n.toNat))) := by
  right
  refine ⟨allowed, ?_⟩
  rcases holds with own | ⟨_, one⟩
  · cases own
    rw [factorial_value]
    rfl
  · cases one
    rfl

end Constant

/-! ### Machines on which the constants are constant -/

/-- The constants hold their numbers, and the global table names them. -/
structure Machine.Upholds (spoiled : Prop) (machine : Machine) : Prop where
  values : ∀ constant : Constant,
    constant.Holds spoiled (machine.store.object constant.id).payload
  named : ∀ constant : Constant,
    (machine.store.table machine.globals).own? constant.name = some (some constant.id)
  inside : machine.globals.index < machine.store.tables.size

/-- Everything may be in hand.  The names of the constants may be set only in tables other than the
global one, and no constant may be reckoned with unless it may be spoiled. -/
def Realm.constants (spoiled : Prop) : Realm where
  knows _ _ := True
  owns _ := True
  reaches _ _ := True
  holds machine := machine.Upholds spoiled
  binds machine table name :=
    (∀ constant : Constant, name ≠ constant.name) ∨
      table ≠ machine.globals ∧ table.index < machine.store.tables.size
  reckons id := spoiled ∨ ∀ constant : Constant, id ≠ constant.id

namespace Realm

variable {spoiled : Prop} {machine later : Machine}

theorem takes_constants (machine : Machine) (slot : Slot) :
    (constants spoiled).Takes machine slot :=
  fun _ _ => trivial

theorem fits_constants (machine : Machine) (object : Object) :
    (constants spoiled).Fits machine object :=
  ⟨trivial, fun _ _ => trivial, fun _ _ _ _ _ => trivial⟩

theorem keeps_constants (upholds : later.Upholds spoiled)
    (grown : machine.store.tables.size ≤ later.store.tables.size)
    (home : later.globals = machine.globals ∨
      machine.store.tables.size ≤ later.globals.index) :
    (constants spoiled).Keeps machine later where
  holds := upholds
  knows _ _ := trivial
  reaches _ _ := trivial
  binds table name bound := by
    rcases bound with other | ⟨away, inside⟩
    · exact .inl other
    · refine .inr ⟨?_, Nat.lt_of_lt_of_le inside grown⟩
      rcases home with same | new
      · rw [same]
        exact away
      · intro same
        rw [same] at inside
        exact Nat.not_lt_of_le new inside

section

variable (upholds : machine.Upholds spoiled)

include upholds

theorem keeps_constants_objects (values : ∀ constant : Constant, constant.Holds spoiled
      (later.store.object constant.id).payload) (tables : later.store.tables = machine.store.tables)
    (globals : later.globals = machine.globals) : (constants spoiled).Keeps machine later := by
  have table : later.store.table later.globals = machine.store.table machine.globals := by
    unfold Store.table
    rw [tables, globals]
  refine keeps_constants ⟨values, fun constant => ?_, ?_⟩ (Nat.le_of_eq ?_) (.inl globals)
  · rw [table]
    exact upholds.named constant
  · rw [tables, globals]
    exact upholds.inside
  · rw [tables]

theorem keeps_constants_addTable (table : Table) :
    (constants spoiled).Keeps machine (machine.withStore (machine.store.addTable table).2) := by
  have grown := Nat.le_of_lt (machine.store.tables.lt_size_push table)
  refine keeps_constants ⟨upholds.values, fun constant => ?_, ?_⟩ grown (.inl rfl)
  · have same : (machine.store.addTable table).2.table machine.globals =
        machine.store.table machine.globals :=
      machine.store.tables.read_push_old table upholds.inside
    rw [same]
    exact upholds.named constant
  · exact Nat.lt_of_lt_of_le upholds.inside grown

theorem keeps_constants_setSymbol {table : TableId} {name : String}
    (binds : (constants spoiled).binds machine table name) (value : ObjectId) :
    (constants spoiled).Keeps machine
      (machine.withStore (machine.store.setSymbol table name (some value))) := by
  have size : (machine.store.setSymbol table name (some value)).tables.size =
      machine.store.tables.size := machine.store.tables.size_modify ..
  refine keeps_constants ⟨upholds.values, fun constant => ?_, ?_⟩ (Nat.le_of_eq size.symm)
    (.inl rfl)
  · rcases machine.store.tables.read_modify_cases table.index (·.set name (some value))
      machine.globals.index with same | ⟨here, _, changed⟩
    · unfold Store.table Store.setSymbol
      rw [same]
      exact upholds.named constant
    · have other : name ≠ constant.name := by
        rcases binds with other | ⟨away, _⟩
        · exact other constant
        · exact absurd (congrArg TableId.mk here) away
      unfold Store.table Store.setSymbol
      rw [changed, Table.own?_set, if_neg other.symm]
      exact upholds.named constant
  · exact Nat.lt_of_lt_of_eq upholds.inside size.symm

theorem keeps_constants_addObject (object : Object) :
    (constants spoiled).Keeps machine
      (machine.withStore (machine.store.addObject object).2) := by
  refine keeps_constants_objects upholds (fun constant => ?_) rfl rfl
  have held := upholds.values constant
  rcases machine.store.objects.read_push_cases object constant.id.index with same | ⟨new, _⟩
  · unfold Store.object Store.addObject
    rw [same]
    exact held
  · -- A constant is there already, since what is not there holds nothing.
    have absent : machine.store.object constant.id = default :=
      Heap.read_of_le (Nat.le_of_eq new.symm)
    rw [absent] at held
    exact absurd held Constant.Holds.not_plain

theorem keeps_constants_claim (id : ObjectId) {change : Object → Object}
    (kept : ∀ object, (change object).payload = object.payload) :
    (constants spoiled).Keeps machine
      (machine.withStore (machine.store.modifyObject id change)) := by
  refine keeps_constants_objects upholds (fun constant => ?_) rfl rfl
  have same := machine.store.objects.view_read_modify Object.payload id.index change kept
    constant.id.index
  unfold Store.object Store.modifyObject
  rw [same]
  exact upholds.values constant

theorem keeps_constants_reckon {id : ObjectId} {n : Int} (reckons : (constants spoiled).reckons id)
    (number : (machine.store.object id).payload = .number (.int n)) :
    (constants spoiled).Keeps machine (machine.withStore (machine.store.modifyObject id
      fun object => { object with payload := .number (.int (Library.factorial n.toNat)) })) := by
  refine keeps_constants_objects upholds (fun constant => ?_) rfl rfl
  have held := upholds.values constant
  rcases machine.store.objects.read_modify_cases id.index
    (fun object => { object with payload := .number (.int (Library.factorial n.toNat)) })
    constant.id.index with same | ⟨here, _, changed⟩
  · unfold Store.object Store.modifyObject
    rw [same]
    exact held
  · have equal : id = constant.id := congrArg ObjectId.mk here
    have allowed : spoiled := reckons.resolve_right fun others => others constant equal
    rw [← equal, number] at held
    unfold Store.object Store.modifyObject
    rw [changed]
    exact held.factorial allowed

end

theorem shares_constants (spoiled : Prop) : (constants spoiled).Shares where
  null _ := trivial
  number _ := trivial
  text _ := trivial
  object _ _ := fits_constants _ _
  addObject upholds _ := ⟨keeps_constants_addObject upholds _, trivial⟩
  claim upholds _ kept _ _ := keeps_constants_claim upholds _ kept
  addList upholds _ := ⟨keeps_constants_objects upholds upholds.values rfl rfl, trivial⟩
  items _ _ _ _ := takes_constants _ _
  addDict upholds _ := ⟨keeps_constants_objects upholds upholds.values rfl rfl, trivial⟩
  addDefaults upholds _ :=
    ⟨keeps_constants_objects upholds upholds.values rfl rfl, fun _ _ => trivial⟩
  defaultValues _ _ _ _ := takes_constants _ _
  modifyDefaults upholds _ _ := keeps_constants_objects upholds upholds.values rfl rfl
  lookup _ _ _ := trivial
  modules _ _ := trivial
  assign _ upholds _ _ binds := keeps_constants_setSymbol upholds binds _
  enter upholds _ := ⟨keeps_constants_addTable upholds _, trivial⟩
  fresh {machine parent} name upholds := by
    refine .inr ⟨fun same => ?_, ?_⟩
    · have inside := upholds.inside
      rw [← same] at inside
      exact Nat.lt_irrefl _ inside
    · exact machine.store.tables.lt_size_push _
  truth _ _ := takes_constants _ _
  reached _ _ := trivial
  ownsList _ := trivial
  entries _ _ _ _ := takes_constants _ _
  modifyItems upholds _ := keeps_constants_objects upholds upholds.values rfl rfl
  setEntry {machine} dict text key value upholds _ := by
    refine keeps_constants_objects upholds (fun constant => ?_)
      (machine.store.tables_setEntry dict text key value) rfl
    unfold Store.object
    rw [Store.objects_setEntry]
    exact upholds.values constant
  reckon upholds _ reckons number := keeps_constants_reckon upholds reckons number
  aside {machine later} upholds same globals := by
    refine keeps_constants_objects upholds (fun constant => ?_) (congrArg Store.tables same) globals
    rw [same]
    exact upholds.values constant
  addTable upholds _ := keeps_constants_addTable upholds _
  renew {machine} upholds := by
    have added := (keeps_constants_addTable upholds { symbols := startingNames }).holds
    refine keeps_constants ⟨added.values, fun constant => ?_, ?_⟩ ?_ (.inr (Nat.le_refl _))
    · have new : (machine.store.addTable { symbols := startingNames }).2.table
          ⟨machine.store.tables.size⟩ = { symbols := startingNames } :=
        machine.store.tables.read_push_new _
      rw [new]
      exact constant.own?_startingNames
    · exact machine.store.tables.lt_size_push _
    · exact Nat.le_of_lt (machine.store.tables.lt_size_push _)

theorem hosts_constants (spoiled : Prop) : (constants spoiled).Hosts :=
  ⟨(shares_constants spoiled).toClosed, (shares_constants spoiled).serves, trivial,
    fun _ => trivial⟩

end Realm

theorem Machine.upholds_initial (spoiled : Prop) (folder : Folder) (input : List String) :
    (Machine.initial folder input).Upholds spoiled where
  values constant := by
    left
    cases constant <;> rfl
  named := Constant.own?_startingNames
  inside := Nat.one_pos

/-! ### What may change the constants -/

def Payload.isFact : Payload → Bool
  | .builtin name => name == Builtin.fact.name
  | _ => false

def Job.rebinds : Job → Bool
  | .visit script _ => script.sets.any fun name => Constant.all.any fun constant =>
      name == constant.name
  | .execution _ _ _ => false

def Job.spoils : Job → Bool
  | .visit _ _ => false
  | .execution function arguments _ => function.payload.isFact &&
      arguments.any fun id => Constant.all.any fun constant => id == constant.id

def Moment.Rebinds (moment : Moment) : Prop :=
  moment.job.rebinds = true

def Moment.Spoils (moment : Moment) : Prop :=
  moment.job.spoils = true

theorem Realm.allows_constants {limits : Limits} {moment : Moment} (keeps : ¬moment.Rebinds)
    (spares : spoiled ∨ ¬moment.Spoils) : (constants spoiled).Allows limits moment := by
  obtain ⟨depth, job, machine⟩ := moment
  cases job with
  | visit script context =>
      intro _ _
      refine ⟨fun name sets table _ => .inl fun constant same => keeps ?_, fun _ _ _ => trivial⟩
      exact List.any_eq_true.mpr ⟨name, sets, List.any_eq_true.mpr ⟨constant,
        constant.mem_all, beq_iff_eq.mpr same⟩⟩
  | execution function arguments given =>
      intro isFact id among
      rcases spares with allowed | spares
      · exact .inl allowed
      · refine .inr fun constant same => spares ?_
        have fact : function.payload.isFact = true := by
          rw [isFact]
          rfl
        exact Bool.and_eq_true_iff.mpr ⟨fact, List.any_eq_true.mpr ⟨id, among,
          List.any_eq_true.mpr ⟨constant, constant.mem_all, beq_iff_eq.mpr same⟩⟩⟩

/-! ### Reading a constant -/

namespace Store

theorem Sees.lookup_eq {store : Store} {name : String} {home table : TableId}
    (sees : store.Sees name home table) (nested : store.Nested) :
    store.lookup table name = store.lookup home name := by
  induction sees with
  | here => rfl
  | outward absent outer _ ih =>
      rw [nested.lookup_eq, absent, outer]
      exact ih

end Store

namespace Machine

variable {limits : Limits} {machine : Machine}

theorem Reached.upholds {avoided : Moment → Prop}
    (keeps : ∀ moment : Moment, moment.Rebinds → avoided moment)
    (spares : spoiled ∨ ∀ moment : Moment, moment.Spoils → avoided moment)
    (reached : Reached limits avoided machine) : machine.Upholds spoiled := by
  refine reached.holds (Realm.hosts_constants spoiled) (upholds_initial spoiled) ?_
  intro moment unavoided
  refine Realm.allows_constants (fun rebinds => unavoided (keeps moment rebinds)) ?_
  exact spares.imp_right fun spares spoils => unavoided (spares moment spoils)

theorem Upholds.lookup (upholds : machine.Upholds spoiled) (constant : Constant) :
    machine.store.lookup machine.globals constant.name = some constant.id := by
  unfold Store.lookup Store.lookupFrom
  dsimp only
  rw [upholds.named constant]

/-- Wherever a name is looked for in the global table, it is read as a new value with some
payload. -/
def Reads (limits : Limits) (machine : Machine) (name : String) (payload : Payload) : Prop :=
  ∀ depth span context table, Context.table context = some table →
    machine.store.Sees name machine.globals table →
      ∃ id after, (Evaluator.atDepth limits (depth + 1) (.access span name none) context).Ends
        machine (.ok id) after ∧ (after.store.object id).payload = payload

theorem Upholds.reads (upholds : machine.Upholds spoiled) (nested : machine.store.Nested)
    (limits : Limits) (constant : Constant) :
    Reads limits machine constant.name (machine.store.object constant.id).payload := by
  intro depth span context table own sees
  have value : machine.store.IsValue constant.id := by
    unfold Store.IsValue
    rcases upholds.values constant with own | ⟨_, one⟩
    · rw [own]
      rfl
    · rw [one]
      rfl
  obtain ⟨id, after, ends, object⟩ := Evaluator.ends_retrieve value span context
  refine ⟨id, after, ?_, by rw [object]⟩
  have found : (Activity.lookup context constant.name).Ends machine (some constant.id) machine := by
    unfold Activity.lookup Activity.tableOf
    rw [own, ← upholds.lookup constant, ← sees.lookup_eq nested]
    rfl
  have finds : (Evaluator.findName span constant.name none context).Ends machine
      (.ok (some constant.id)) machine := Eval.Ends.lift found
  exact (Eval.result_bind_ended finds _).trans (Eval.Ends.lift ends)

end Machine

/-! ### What yields nothing -/

namespace Eval

variable {α : Type}

/-- An evaluation that comes to nothing but the constant for no value. -/
def Void (evaluation : Eval ObjectId) : Prop :=
  ∀ {before id after}, evaluation.Ends before (.ok id) after → id = Store.nullId

theorem void_null : (pure Store.nullId : Eval ObjectId).Void := by
  intro before id after ends
  cases ends
  rfl

theorem void_bind {first : Eval α} {next : α → Eval ObjectId} (goesOn : ∀ a, (next a).Void) :
    (first >>= next).Void := by
  intro before id after ends
  obtain ⟨outcome, middle, _, ends⟩ := ends_bind_iff.mp ends
  cases outcome with
  | ok a => exact goesOn a ends
  | error interrupt => cases ends

end Eval

namespace Evaluator

open Eval

variable {self : Evaluator} {context : Context}

inductive Selects (self : Evaluator) (context : Context) (otherwise : Option (Script × Bool)) :
    List (Script × Script × Bool) → Machine → Option (Script × Bool) → Machine → Prop where
  | otherwise {before : Machine} : Selects self context otherwise [] before otherwise before
  | this {condition body : Script} {block : Bool} {rest : List (Script × Script × Bool)}
      {before middle : Machine} {test : ObjectId}
      (tested : (self condition context).Ends before (.ok test) middle)
      (isTrue : Operation.isTrue (middle.store.object test) = true) :
      Selects self context otherwise ((condition, body, block) :: rest) before
        (some (body, block)) middle
  | later {condition body : Script} {block : Bool} {rest : List (Script × Script × Bool)}
      {before middle after : Machine} {test : ObjectId} {chosen : Option (Script × Bool)}
      (tested : (self condition context).Ends before (.ok test) middle)
      (isFalse : Operation.isTrue (middle.store.object test) = false)
      (selects : Selects self context otherwise rest middle chosen after) :
      Selects self context otherwise ((condition, body, block) :: rest) before chosen after

/-- A tree yields nothing: a loop in block form, or a branch that comes to a block or to none of its
bodies. -/
inductive YieldsNothing (self : Evaluator) (context : Context) (before : Machine) :
    Script → Prop where
  | count (span : Span) (name : String) (first limit : Script) (step : Option Script)
      (body : Script) :
      YieldsNothing self context before (.count span name first limit step body true)
  | each (span : Span) (name : String) (collection body : Script) :
      YieldsNothing self context before (.each span name collection body true)
  | loop (span : Span) (condition body : Script) :
      YieldsNothing self context before (.loop span condition body true)
  | block (span : Span) {cases : List (Script × Script × Bool)}
      {otherwise : Option (Script × Bool)} {body : Script} {reached : Machine}
      (selects : Selects self context otherwise cases before (some (body, true)) reached) :
      YieldsNothing self context before (.branch span cases otherwise)
  | noCase (span : Span) {cases : List (Script × Script × Bool)}
      {otherwise : Option (Script × Bool)} {reached : Machine}
      (selects : Selects self context otherwise cases before none reached) :
      YieldsNothing self context before (.branch span cases otherwise)

theorem void_bodyValue (body : Script) : (bodyValue self body true context).Void :=
  void_bind fun _ => void_null

theorem void_countValue (limits : Limits) (span : Span) (name : String) (first limit : Script)
    (step : Option Script) (body : Script) :
    (countValue limits self span name first limit step body true context).Void := by
  apply void_bind
  intro start
  apply void_bind
  intro stop
  apply void_bind
  intro stride
  apply void_bind
  intro counter
  apply void_bind
  intro width
  apply void_bind
  intro rising
  exact void_bind fun _ => void_null

theorem void_eachValue (limits : Limits) (span : Span) (name : String)
    (collection body : Script) :
    (eachValue limits self span name collection body true context).Void := by
  apply void_bind
  intro outcome
  cases outcome with
  | ok id =>
      apply void_bind
      intro elements
      exact void_bind fun _ => void_null
  | error interrupt =>
      cases interrupt with
      | failed fault => exact fun ends => by cases ends
      | _ => exact fun ends => by cases ends

theorem Selects.result {otherwise chosen : Option (Script × Bool)}
    {cases : List (Script × Script × Bool)} {before reached : Machine}
    (selects : Selects self context otherwise cases before chosen reached) :
    (branchValue self context otherwise cases).result before =
      (branchValue self context chosen []).result reached := by
  induction selects with
  | otherwise => rfl
  | this tested isTrue =>
      refine (result_bind_ended tested _).trans ?_
      refine (result_bind_ended (Eval.Ends.lift (Activity.ends_object _ _)) _).trans ?_
      rw [if_pos isTrue]
      rfl
  | later tested isFalse _ ih =>
      refine (result_bind_ended tested _).trans ?_
      refine (result_bind_ended (Eval.Ends.lift (Activity.ends_object _ _)) _).trans ?_
      rw [if_neg (by rw [isFalse]; exact Bool.false_ne_true)]
      exact ih

theorem YieldsNothing.null {limits : Limits} {execute : Executor} {script : Script}
    {before after : Machine} {id : ObjectId}
    (nothing : YieldsNothing self context before script)
    (ends : (step limits self execute script context).Ends before (.ok id) after) :
    id = Store.nullId := by
  cases nothing with
  | count span name first limit stride body =>
      exact void_countValue limits span name first limit stride body ends
  | each span name collection body => exact void_eachValue limits span name collection body ends
  | loop span condition body =>
      have void : (loopRounds self condition body context limits.rounds [] >>= fun values =>
          loopValue span true context values).Void := void_bind fun _ => void_null
      exact void ends
  | @block span cases otherwise body reached selects =>
      exact void_bodyValue body (selects.result.symm.trans ends)
  | noCase span selects => exact void_null (selects.result.symm.trans ends)

end Evaluator

/-! ### The constants stay constant -/

/-- As long as no name of a constant is set and no constant is given to the function that replaces
the number in its argument, the names of the constants are read as zero, zero and one, and whatever
yields nothing yields zero.  If only the names are left alone, a constant is read as its own number
or as one. -/
theorem constants_stay_constant (limits : Limits) :
    (∀ machine, Machine.Reached limits (fun moment => moment.Rebinds ∨ moment.Spoils) machine →
      (∀ constant : Constant,
        machine.Reads limits constant.name (.number (.int constant.value))) ∧
      ∀ depth script context id after,
        (Evaluator.atDepth limits depth).YieldsNothing context machine script →
        (∀ moment : Moment, moment.Rebinds ∨ moment.Spoils →
          ¬Moment.Meets limits ⟨depth + 1, .visit script context, machine⟩ moment) →
        (Evaluator.atDepth limits (depth + 1) script context).Ends machine (.ok id) after →
          (after.store.object id).payload = .number (.int 0)) ∧
    ∀ machine, Machine.Reached limits Moment.Rebinds machine → ∀ constant : Constant,
      machine.Reads limits constant.name (.number (.int constant.value)) ∨
        machine.Reads limits constant.name (.number (.int 1)) := by
  constructor
  · intro machine reached
    have upholds : machine.Upholds False := reached.upholds (fun _ => .inl) (.inr fun _ => .inr)
    constructor
    · intro constant
      have own := (upholds.values constant).resolve_right fun spoiled => spoiled.1
      rw [← own]
      exact upholds.reads reached.rooted.nested limits constant
    · intro depth script context id after nothing unmet ends
      have kept : (Realm.constants False).Keeps machine after :=
        @Moment.keeps_of_unmet _ limits _ (Realm.shares_constants False).toClosed
          (Realm.shares_constants False).serves trivial
          (fun moment unavoided => Realm.allows_constants (fun rebinds => unavoided (.inl rebinds))
            (.inr fun spoils => unavoided (.inr spoils)))
          ⟨depth + 1, .visit script context, machine⟩ ⟨fun _ _ => trivial, trivial⟩ upholds unmet
          _ _ ends
      rw [nothing.null ends]
      exact (kept.holds.values .nothing).resolve_right fun spoiled => spoiled.1
  · intro machine reached constant
    have upholds : machine.Upholds True := reached.upholds (fun _ => id) (.inl trivial)
    rcases upholds.values constant with own | ⟨_, one⟩
    · rw [← own]
      exact .inl (upholds.reads reached.rooted.nested limits constant)
    · rw [← one]
      exact .inr (upholds.reads reached.rooted.nested limits constant)

/-! ### Two sessions -/

def Halts.wherever (test : Job → Bool) : Halts := fun moment =>
  if test moment.job then some .tooDeep else none

theorem Halts.wherever_of_test {test : Job → Bool} {moment : Moment}
    (tested : test moment.job = true) : wherever test moment ≠ none := by
  unfold wherever
  rw [if_pos tested]
  exact Option.some_ne_none _

/-- A text that ends although certain jobs would halt it avoids them. -/
theorem Machine.reached_afterText_of_test {text : String} (test : Job → Bool)
    {avoided : Moment → Prop} (avoids : ∀ moment, avoided moment → test moment.job = true)
    (ended : ((course .standard { name := "<stdin>", text } "" (.wherever test)).result
      (.initial {} [])).1.isOk = true) : Reached .standard avoided (afterText text) := by
  refine .between (.run (.start {} []) _ _ fun moment avoidable => ?_)
  cases result : (course .standard { name := "<stdin>", text } "" (.wherever test)).result
      (.initial {} []) with
  | mk outcome after =>
      rw [result] at ended
      cases outcome with
      | error cause => cases ended
      | ok outcome =>
          exact not_met_of_ended result (Halts.wherever_of_test (avoids moment avoidable))

theorem Moment.not_met_of_test {limits : Limits} {test : Job → Bool} {start moment : Moment}
    (tested : test moment.job = true)
    (ended : (((Halts.wherever test).perform limits start.depth start.job).result
      start.machine).1.isOk = true) : ¬start.Meets limits moment := by
  intro meets
  cases result : ((Halts.wherever test).perform limits start.depth start.job).result
      start.machine with
  | mk outcome after =>
      rw [result] at ended
      cases outcome with
      | error cause => cases ended
      | ok outcome => exact Halts.wherever_of_test tested (Halts.not_met result meets)

theorem Job.changes_of_moment {moment : Moment} (changes : moment.Rebinds ∨ moment.Spoils) :
    (moment.job.rebinds || moment.job.spoils) = true :=
  Bool.or_eq_true_iff.mpr changes

/-- The factorial of a variable that was set to a constant leaves the constant alone. -/
theorem constants_stay_constant_copied :
    Machine.Reached .standard (fun moment => moment.Rebinds ∨ moment.Spoils)
        (.afterText "var n = None; fact(n)") ∧
      (∀ constant : Constant, (Machine.afterText "var n = None; fact(n)").Reads .standard
        constant.name (.number (.int constant.value))) ∧
      ∃ id after, (Evaluator.atDepth .standard 3
          (.branch default [(.access default "False" none, .skip default, false)] none)
          [{ name := "<program>", entered := none, table := some ⟨0⟩ }]).Ends
            (.afterText "var n = None; fact(n)") (.ok id) after ∧
        (after.store.object id).payload = .number (.int 0) := by
  have reached : Machine.Reached .standard (fun moment => moment.Rebinds ∨ moment.Spoils)
      (.afterText "var n = None; fact(n)") :=
    Machine.reached_afterText_of_test (fun job => job.rebinds || job.spoils)
      (fun _ => Job.changes_of_moment) (by decide +kernel)
  have home : (Machine.afterText "var n = None; fact(n)").globals = ⟨0⟩ := by decide +kernel
  have ended : (((Halts.wherever fun job => job.rebinds || job.spoils).perform .standard 3
      (.visit (.branch default [(.access default "False" none, .skip default, false)] none)
        [{ name := "<program>", entered := none, table := some ⟨0⟩ }])).result
          (.afterText "var n = None; fact(n)")).1.isOk = true := by decide +kernel
  generalize Machine.afterText "var n = None; fact(n)" = machine at reached home ended ⊢
  obtain ⟨reads, nothing⟩ := (constants_stay_constant .standard).1 machine reached
  refine ⟨reached, reads, ?_⟩
  have sees : machine.store.Sees "False" machine.globals ⟨0⟩ := by
    rw [home]
    exact .here
  obtain ⟨test, after, tested, zero⟩ := reads .falsehood 1 default
    [{ name := "<program>", entered := none, table := some ⟨0⟩ }] ⟨0⟩ rfl sees
  have selects : (Evaluator.atDepth .standard 2).Selects
      [{ name := "<program>", entered := none, table := some ⟨0⟩ }] none
      [(.access default "False" none, .skip default, false)] machine none after := by
    refine .later tested ?_ .otherwise
    unfold Operation.isTrue
    rw [zero]
    rfl
  have ends : (Evaluator.atDepth .standard 3
      (.branch default [(.access default "False" none, .skip default, false)] none)
      [{ name := "<program>", entered := none, table := some ⟨0⟩ }]).Ends machine
        (.ok Store.nullId) after := selects.result
  exact ⟨_, after, ends, nothing 2 _ _ _ _ (.noCase default selects) (fun moment changes =>
    Moment.not_met_of_test (Job.changes_of_moment changes) ended) ends⟩

/-- Where a branch that yields nothing is given to the function that replaces the number in its
argument, the name for nothing is read as one from then on. -/
theorem factorial_of_nothing_spoils :
    Machine.Reached .standard Moment.Rebinds (.afterText "fact(if 0: 1)") ∧
      (Machine.afterText "fact(if 0: 1)").Reads .standard "None" (.number (.int 1)) := by
  have reached : Machine.Reached .standard Moment.Rebinds (.afterText "fact(if 0: 1)") :=
    Machine.reached_afterText_of_test Job.rebinds (fun _ rebinds => rebinds) (by decide +kernel)
  have changed : Operation.isTrue ((Machine.afterText "fact(if 0: 1)").store.object
      Store.nullId) = true := by decide +kernel
  have upholds : (Machine.afterText "fact(if 0: 1)").Upholds True :=
    reached.upholds (fun _ => id) (.inl trivial)
  have one := upholds.reads reached.rooted.nested .standard .nothing
  rcases upholds.values .nothing with zero | ⟨_, spoiled⟩
  · have same : (Machine.afterText "fact(if 0: 1)").store.object Store.nullId =
        (Machine.afterText "fact(if 0: 1)").store.object Constant.nothing.id := rfl
    unfold Operation.isTrue at changed
    rw [same, zero] at changed
    cases changed
  · rw [spoiled] at one
    exact ⟨reached, one⟩

end Lingo
