/-
Tables and their parents.

A symbol table never gets another parent, and its parent is older than it is.  So looking for a
name ends, and the value of a name is what the table itself holds or else what the name stands for
in the parent.  This holds of every machine that a session can reach.
-/

import Lingo.Proofs.Eval.Staying

namespace Lingo

namespace Store

def Nested (store : Store) : Prop :=
  ∀ id parent, (store.table id).parent = some parent → parent.index < id.index

theorem Nested.addTable {store : Store} (nested : store.Nested) {table : Table}
    (older : ∀ parent, table.parent = some parent → parent.index < store.tables.size) :
    (store.addTable table).2.Nested :=
  fun id => Heap.forall_read_push
    (fun address (cell : Table) => ∀ parent, cell.parent = some parent → parent.index < address)
    (fun address => nested ⟨address⟩) older id.index

/-- Among nested tables it does not matter how many of them may be searched, if enough. -/
theorem Nested.lookupFrom_eq {store : Store} (nested : store.Nested) (name : String) :
    ∀ {fuel other : Nat} {id : TableId}, id.index < fuel → id.index < other →
      store.lookupFrom name fuel id = store.lookupFrom name other id := by
  intro fuel
  induction fuel with
  | zero =>
      intro other id enough _
      exact absurd enough (Nat.not_lt_zero _)
  | succ fuel ih =>
      intro other id enough enoughToo
      cases other with
      | zero => exact absurd enoughToo (Nat.not_lt_zero _)
      | succ other =>
          unfold lookupFrom
          dsimp only
          split
          · rfl
          · cases known : (store.table id).parent with
            | none => rfl
            | some parent =>
                have older := nested id parent known
                exact ih (by omega) (by omega)

theorem Nested.lookup_eq {store : Store} (nested : store.Nested) (id : TableId) (name : String) :
    store.lookup id name = ((store.table id).own? name).join.or
      ((store.table id).parent.bind fun parent => store.lookup parent name) := by
  have outward : ∀ parent, (store.table id).parent = some parent →
      store.lookupFrom name id.index parent = store.lookup parent name :=
    fun parent known => nested.lookupFrom_eq name (nested id parent known) (Nat.lt_succ_self _)
  unfold lookup
  rw [lookupFrom]
  cases own : (store.table id).own? name with
  | none =>
      cases known : (store.table id).parent with
      | none => rfl
      | some parent => exact outward parent known
  | some entry =>
      cases entry with
      | none =>
          cases known : (store.table id).parent with
          | none => rfl
          | some parent => exact outward parent known
      | some value => rfl

structure Descends (before after : Store) : Prop where
  tables : before.tables.size ≤ after.tables.size
  parents : ∀ id : TableId, id.index < before.tables.size →
    (after.table id).parent = (before.table id).parent

theorem Descends.refl (store : Store) : store.Descends store :=
  ⟨Nat.le_refl _, fun _ _ => rfl⟩

theorem Descends.trans {before middle after : Store} (first : before.Descends middle)
    (second : middle.Descends after) : before.Descends after where
  tables := Nat.le_trans first.tables second.tables
  parents id old := (second.parents id (Nat.lt_of_lt_of_le old first.tables)).trans
    (first.parents id old)

theorem Descends.of_tables {before after : Store} (same : after.tables = before.tables) :
    before.Descends after where
  tables := Nat.le_of_eq (congrArg Heap.size same).symm
  parents _ _ := by
    unfold table
    rw [same]

theorem descends_addTable (store : Store) (table : Table) :
    store.Descends (store.addTable table).2 where
  tables := Nat.le_of_lt (store.tables.lt_size_push table)
  parents _ old := congrArg Table.parent (store.tables.read_push_old table old)

theorem parent_setSymbol (store : Store) (id : TableId) (name : String) (value : Option ObjectId)
    (other : TableId) :
    ((store.setSymbol id name value).table other).parent = (store.table other).parent := by
  rcases store.tables.read_modify_cases id.index (·.set name value) other.index with
    same | ⟨_, _, changed⟩
  · exact congrArg Table.parent same
  · exact (congrArg Table.parent changed).trans rfl

theorem descends_setSymbol (store : Store) (id : TableId) (name : String)
    (value : Option ObjectId) : store.Descends (store.setSymbol id name value) where
  tables := Nat.le_of_eq (store.tables.size_modify _ _).symm
  parents other _ := store.parent_setSymbol id name value other

end Store

/-! ### Rooted machines -/

namespace Machine

/-- All tables that a machine refers to are there, and their parents are older. -/
structure Rooted (machine : Machine) : Prop where
  nested : machine.store.Nested
  /-- Whatever can be called has its place in a context with a table that is there. -/
  placed : ∀ id context table, (machine.store.object id).payload.isCallable = true →
    (machine.store.object id).context = some context → context.table = some table →
      table.index < machine.store.tables.size
  globals : machine.globals.index < machine.store.tables.size
  modules : ∀ table ∈ machine.modules, table.index < machine.store.tables.size

variable {machine later : Machine}

theorem Rooted.of_objects (rooted : machine.Rooted)
    (tables : later.store.tables = machine.store.tables)
    (globals : later.globals = machine.globals) (modules : later.modules = machine.modules)
    (placed : ∀ id context table, (later.store.object id).payload.isCallable = true →
      (later.store.object id).context = some context → context.table = some table →
        table.index < machine.store.tables.size) : later.Rooted where
  nested id parent known := by
    unfold Store.table at known
    rw [tables] at known
    exact rooted.nested id parent known
  placed id context table callable claimed own := by
    rw [tables]
    exact placed id context table callable claimed own
  globals := by
    rw [tables, globals]
    exact rooted.globals
  modules := by
    rw [tables, modules]
    exact rooted.modules

theorem Rooted.addTable (rooted : machine.Rooted) {table : Table}
    (older : ∀ parent, table.parent = some parent → parent.index < machine.store.tables.size) :
    (machine.withStore (machine.store.addTable table).2).Rooted := by
  have grown := (machine.store.descends_addTable table).tables
  constructor
  · exact rooted.nested.addTable older
  · intro id context own callable claimed here
    exact Nat.lt_of_lt_of_le (rooted.placed id context own callable claimed here) grown
  · exact Nat.lt_of_lt_of_le rooted.globals grown
  · intro own listed
    exact Nat.lt_of_lt_of_le (rooted.modules own listed) grown

theorem Rooted.setSymbol (rooted : machine.Rooted) (id : TableId) (name : String)
    (value : Option ObjectId) :
    (machine.withStore (machine.store.setSymbol id name value)).Rooted := by
  have grown := (machine.store.descends_setSymbol id name value).tables
  constructor
  · intro other parent known
    rw [Store.parent_setSymbol] at known
    exact rooted.nested other parent known
  · intro other context own callable claimed here
    exact Nat.lt_of_lt_of_le (rooted.placed other context own callable claimed here) grown
  · exact Nat.lt_of_lt_of_le rooted.globals grown
  · intro own listed
    exact Nat.lt_of_lt_of_le (rooted.modules own listed) grown

end Machine

/-! ### The realm of rooted machines -/

/-- Everything may be in hand, and the tables that are there are reached.  All tables of a machine
at the start keep their parents. -/
def Realm.rooted (start : Machine) : Realm where
  knows _ _ := True
  owns _ := True
  reaches machine table := table.index < machine.store.tables.size
  holds machine := machine.Rooted ∧ start.store.Descends machine.store

namespace Realm

variable {start machine later : Machine}

theorem keeps_rooted (descends : start.store.Descends machine.store) (still : later.Rooted)
    (further : machine.store.Descends later.store) : (rooted start).Keeps machine later where
  holds := ⟨still, descends.trans further⟩
  knows _ _ := trivial
  reaches _ reached := Nat.lt_of_lt_of_le reached further.tables

theorem keeps_rooted_objects (holds : (rooted start).holds machine)
    (tables : later.store.tables = machine.store.tables)
    (globals : later.globals = machine.globals) (modules : later.modules = machine.modules)
    (placed : ∀ id, (later.store.object id).payload.isCallable = true →
      (later.store.object id) = machine.store.object id ∨
        (rooted start).Fits machine (later.store.object id)) :
    (rooted start).Keeps machine later := by
  refine keeps_rooted holds.2 (holds.1.of_objects tables globals modules ?_) (.of_tables tables)
  intro id context table callable claimed own
  rcases placed id callable with same | fits
  · rw [same] at callable claimed
    exact holds.1.placed id context table callable claimed own
  · exact fits.reaches callable context claimed table own

theorem closed_rooted (start : Machine) : (rooted start).Closed where
  null _ := trivial
  number _ := trivial
  text _ := trivial
  object holds _ :=
    ⟨trivial, fun _ _ => trivial, fun callable context claimed table own =>
      holds.1.placed _ context table callable claimed own⟩
  addObject {machine object} holds fits := by
    refine ⟨keeps_rooted_objects holds rfl rfl rfl ?_, trivial⟩
    intro id _
    rcases machine.store.objects.read_push_cases object id.index with same | ⟨_, made⟩
    · exact .inl same
    · right
      unfold Store.object Store.addObject
      rw [made]
      exact fits
  claim {machine id change} holds _ _ _ fits := by
    refine keeps_rooted_objects holds rfl rfl rfl ?_
    intro other _
    rcases machine.store.objects.read_modify_cases id.index change other.index with
      same | ⟨here, _, changed⟩
    · exact .inl same
    · right
      unfold Store.object Store.modifyObject
      rw [changed, ← here]
      exact fits
  addList holds _ := ⟨keeps_rooted_objects holds rfl rfl rfl fun _ _ => .inl rfl, trivial⟩
  items _ _ _ _ _ _ := trivial
  addDict holds _ := ⟨keeps_rooted_objects holds rfl rfl rfl fun _ _ => .inl rfl, trivial⟩
  addDefaults holds _ :=
    ⟨keeps_rooted_objects holds rfl rfl rfl fun _ _ => .inl rfl, fun _ _ => trivial⟩
  defaultValues _ _ _ _ _ _ := trivial
  modifyDefaults holds _ _ := keeps_rooted_objects holds rfl rfl rfl fun _ _ => .inl rfl
  lookup _ _ _ := trivial
  modules holds listed := holds.1.modules _ listed
  assign {machine table id} name holds _ _ _ :=
    keeps_rooted holds.2 (holds.1.setSymbol table name (some id))
      (machine.store.descends_setSymbol table name (some id))
  enter {machine parent} holds reached := by
    have entered : (machine.withStore (machine.store.addTable { parent }).2).Rooted :=
      holds.1.addTable reached
    refine ⟨keeps_rooted holds.2 entered (machine.store.descends_addTable _), ?_⟩
    exact machine.store.tables.lt_size_push _

theorem lends_rooted (start : Machine) : (rooted start).Lends where
  null _ := trivial
  truth _ _ _ _ := trivial
  number _ := trivial
  text _ := trivial
  makeBare holds _ uncalled :=
    (closed_rooted start).addObject holds (fits_uncalled trivial uncalled fun _ _ => trivial)
  addList := (closed_rooted start).addList
  items _ _ _ _ _ _ := trivial
  entries _ _ _ _ _ _ := trivial
  modifyItems holds _ := keeps_rooted_objects holds rfl rfl rfl fun _ _ => .inl rfl
  setEntry id text key _ holds _ := by
    refine keeps_rooted_objects holds (Store.tables_setEntry ..) rfl rfl fun other _ => .inl ?_
    exact congrArg (Heap.read · other.index) (Store.objects_setEntry ..)
  reckon {machine id n} holds _ _ _ := by
    refine keeps_rooted_objects holds rfl rfl rfl fun other callable => ?_
    rcases machine.store.objects.read_modify_cases id.index
      (fun object => { object with payload := .number (.int (Library.factorial n.toNat)) })
      other.index with same | ⟨_, _, changed⟩
    · exact .inl same
    · have number := congrArg Object.payload changed
      unfold Store.object Store.modifyObject at callable
      rw [number] at callable
      cases callable
  print _ holds := keeps_rooted_objects holds rfl rfl rfl fun _ _ => .inl rfl
  read holds _ := keeps_rooted_objects holds rfl rfl rfl fun _ _ => .inl rfl

end Realm

/-! ### The functions of the language -/

namespace Evaluator

open Activity

variable {start before : Machine} {self : Evaluator} (loyal : self.Loyal (.rooted start))

theorem takes_rooted (machine : Machine) (slot : Slot) : (Realm.rooted start).Takes machine slot :=
  fun _ _ => trivial

theorem binds_rooted (machine : Machine) (context : Context) (name : String) :
    (Realm.rooted start).Binds machine context name :=
  fun _ _ => trivial

theorem hears_rooted (call : Invocation) : (Realm.rooted start).Hears call :=
  fun _ => trivial

theorem stays_addTable (table : Table) (orphan : table.parent = none) :
    (addTable table).Stays (.rooted start) before fun id after =>
      id.index < after.store.tables.size := by
  refine stays_of_ends (before.withStore _) rfl fun holds => ?_
  have older : ∀ parent, table.parent = some parent → parent.index < before.store.tables.size := by
    intro parent known
    rw [orphan] at known
    cases known
  refine ⟨Realm.keeps_rooted holds.2 (holds.1.addTable older)
    (before.store.descends_addTable table), ?_⟩
  exact before.store.tables.lt_size_push table

include loyal

theorem stays_builtinAnswer (call : Invocation)
    (admits : (Realm.rooted start).Admits before call.context) (builtin : Builtin)
    (arguments : List ObjectId) :
    (builtinAnswer self call builtin arguments).Stays (.rooted start) before fun _ _ => True := by
  unfold builtinAnswer
  split
  · -- A fresh global table is put in use.
    have renewed : renewGlobals.Stays (.rooted start) before fun _ _ => True := by
      apply (stays_addTable { symbols := startingNames } rfl).bind
      intro table reached _ inside
      refine stays_of_ends { reached with globals := table } rfl fun holds => ?_
      refine ⟨Realm.keeps_rooted holds.2 ?_ (.refl _), trivial⟩
      exact ⟨holds.1.nested, holds.1.placed, inside, holds.1.modules⟩
    apply Eval.Stays.act renewed
    intro _ reached _ _
    exact (stays_loadScript (Realm.closed_rooted start) loyal (hears_rooted call) _ ""
      fun _ holds => holds.1.globals).imp fun _ _ _ => trivial
  · -- The table of a module is added.
    apply (Invocation.stays_text (hears_rooted call) (some 0) _).bind
    intro _ one keptOne _
    apply (Invocation.stays_text (hears_rooted call) (some 1) _).bind
    intro moduleName two keptTwo _
    apply Eval.Stays.act (stays_assign (Realm.closed_rooted start)
      ((admits.keeps keptOne).keeps keptTwo) (binds_rooted _ _ "fn") trivial)
    intro _ assigned _ _
    apply Eval.Stays.act (stays_addTable { name := some moduleName } rfl)
    intro table added _ inside
    have listed : (modify fun machine => { machine with modules := machine.modules ++ [table] } :
        Activity Unit).Stays (.rooted start) added fun _ _ => True := by
      refine stays_of_ends { added with modules := added.modules ++ [table] } rfl
        fun holds => ?_
      refine ⟨Realm.keeps_rooted holds.2 ?_ (.refl _), trivial⟩
      refine ⟨holds.1.nested, holds.1.placed, holds.1.globals, ?_⟩
      exact List.forall_mem_append.mpr ⟨holds.1.modules, List.forall_mem_singleton.mpr inside⟩
    apply Eval.Stays.act listed
    intro _ reached _ _
    apply Eval.Stays.observe (stays_loadScript (Realm.closed_rooted start) loyal
      (hears_rooted call) _ moduleName fun _ holds => holds.1.globals)
    intro outcome after _ _
    exact Eval.stays_pure trivial
  · have offers : (Library.answer call builtin arguments).Offers (.rooted start) before :=
      Library.offers_answer (Realm.lends_rooted start) (hears_rooted call) builtin
        (fun _ _ => trivial) fun _ _ _ => trivial
    exact offers.imp fun _ _ _ => trivial

omit loyal

theorem serves_rooted (start : Machine) : (Realm.rooted start).Serves := by
  intro self loyal function name arguments given before entrusts _ payload
  have callable : function.payload.isCallable = true := by
    rw [payload]
    rfl
  apply Eval.Stays.act
    (stays_callContext (Realm.closed_rooted start) name entrusts.fits trivial callable)
  intro context entered _ ⟨admits, binds⟩
  apply Eval.Stays.look (within_part _)
  intro builtin _ _
  apply Eval.Stays.ofFault fun _ _ => trivial
  intro _ _
  apply Eval.Stays.act (stays_bindAll (Realm.closed_rooted start) admits binds
    fun binding _ => takes_rooted _ binding.2)
  intro _ bound kept _
  apply (stays_builtinAnswer loyal _ (admits.keeps kept) builtin arguments).imp
  intro slot _ _
  exact takes_rooted _ slot

end Evaluator

/-! ### Jobs and sessions -/

/-- The context in which a job is done has a table that is there. -/
def Job.Placed (machine : Machine) : Job → Prop
  | .visit _ context => ∀ table, context.table = some table →
      table.index < machine.store.tables.size
  | .execution function _ _ => ∀ context table, function.context = some context →
      context.table = some table → table.index < machine.store.tables.size

namespace Halts

variable (limits : Limits) (halts : Halts) {before : Machine}

theorem rooted_perform (depth : Nat) {job : Job} (rooted : before.Rooted)
    (placed : job.Placed before) :
    ((halts.perform limits depth job).result before).2.Rooted ∧
      before.store.Descends ((halts.perform limits depth job).result before).2.store := by
  have granted : (Realm.rooted before).Grants before job := by
    cases job with
    | visit script context => exact ⟨placed, trivial⟩
    | execution function arguments given =>
        refine ⟨⟨trivial, fun _ _ => trivial, ?_⟩, trivial, fun _ _ => trivial, ?_⟩
        · exact fun _ context claimed table own => placed context table claimed own
        · exact fun pair _ => Evaluator.takes_rooted _ pair.2
  have lenient : (Realm.rooted before).Lenient := {}
  have stays : (halts.perform limits depth job).Stays (.rooted before) before fun answer after =>
      (Realm.rooted before).Accepts after job answer :=
    stays_perform (Realm.closed_rooted before) (Evaluator.serves_rooted before) trivial
      (fun moment _ => lenient.allows limits moment) depth job before granted
  exact (Activity.Stays.keeps stays ⟨rooted, .refl _⟩ rfl).holds

end Halts

theorem Moment.Meets.rooted {limits : Limits} {start moment : Moment}
    (meets : start.Meets limits moment) (rooted : start.machine.Rooted)
    (placed : start.job.Placed start.machine) :
    moment.machine.Rooted ∧ start.machine.store.Descends moment.machine.store := by
  have performed := Halts.rooted_perform limits (.at moment .tooDeep) start.depth rooted placed
  rw [meets (.at moment .tooDeep) .tooDeep (if_pos rfl) fun _ halted =>
    .inl (Halts.at_elsewhere halted)] at performed
  exact performed

namespace Machine

variable {limits : Limits} {avoided : Moment → Prop} {machine : Machine}

theorem rooted_initial (folder : Folder) (input : List String) :
    (Machine.initial folder input).Rooted where
  nested id parent known := by
    have read : Store.initial.table id =
        (#[{ symbols := startingNames }] : Array Table).getD id.index default := rfl
    have orphan : (Store.initial.table id).parent = none := by
      rw [read]
      cases id.index <;> rfl
    have impossible := orphan.symm.trans known
    cases impossible
  placed id context table _ claimed _ := by
    have impossible := (Store.context_initial id).symm.trans claimed
    cases impossible
  globals := Nat.one_pos
  modules _ listed := absurd listed List.not_mem_nil

theorem Reached.rooted (reached : Reached limits avoided machine) : machine.Rooted := by
  have hosts : (Realm.rooted default).Hosts :=
    ⟨Realm.closed_rooted default, Evaluator.serves_rooted default, trivial,
      fun holds => holds.1.globals⟩
  have initial : ∀ folder input, (Realm.rooted default).holds (.initial folder input) := by
    intro folder input
    exact ⟨rooted_initial folder input, Nat.zero_le _, fun _ old => absurd old (Nat.not_lt_zero _)⟩
  have lenient : (Realm.rooted default).Lenient := {}
  exact (reached.holds hosts initial fun moment _ => lenient.allows limits moment).1

end Machine

end Lingo
