/-
What nothing refers to.

An object to which no list, dictionary, default or table refers, and which is no argument either,
is out of the reach of every job: whatever the job does, the object stays as it is.
-/

import Lingo.Proofs.Eval.Defaults
import Lingo.Proofs.Eval.Sharing

namespace Lingo

variable {id : ObjectId}

namespace Store

structure RefersOnly (store : Store) (known : ObjectId → Prop) : Prop where
  items : ∀ list id, .object id ∈ store.items list → known id
  entries : ∀ dict, ∀ entry ∈ store.entries dict, ∀ id, entry.2 = .object id → known id
  defaultValues : ∀ defaults id, .object id ∈ store.defaultValues defaults → known id
  symbols : ∀ table name id, (store.table table).own? name = some (some id) → known id

namespace RefersOnly

variable {store : Store} {known : ObjectId → Prop}

variable (refers : store.RefersOnly known)

include refers

theorem mono {wider : ObjectId → Prop} (included : ∀ id, known id → wider id) :
    store.RefersOnly wider where
  items list id among := included id (refers.items list id among)
  entries dict entry among id same := included id (refers.entries dict entry among id same)
  defaultValues defaults id among := included id (refers.defaultValues defaults id among)
  symbols table name id own := included id (refers.symbols table name id own)

theorem of_objects {objects : Heap Object} : ({ store with objects } : Store).RefersOnly known :=
  ⟨refers.items, refers.entries, refers.defaultValues, refers.symbols⟩

theorem addList {items : Array Slot} (fit : ∀ id, .object id ∈ items → known id) :
    (store.addList items).2.RefersOnly known :=
  { refers with
    items := fun list =>
      Heap.forall_read_push (fun _ (cell : Array Slot) => ∀ id, .object id ∈ cell → known id)
        (fun address => refers.items ⟨address⟩) fit list.index }

theorem modifyItems {list : ListId} {change : Array Slot → Array Slot}
    (fit : ∀ id, .object id ∈ change (store.items list) → known id) :
    (store.modifyItems list change).RefersOnly known :=
  { refers with
    items := fun other =>
      Heap.forall_read_modify (fun _ (cell : Array Slot) => ∀ id, .object id ∈ cell → known id)
        (fun address => refers.items ⟨address⟩) fit other.index }

theorem addDict {entries : Array (ObjectId × Slot)}
    (fit : ∀ entry ∈ entries, ∀ id, entry.2 = .object id → known id) :
    (store.addDict entries).2.RefersOnly known :=
  { refers with
    entries := fun dict =>
      Heap.forall_read_push
        (fun _ (cell : Array (ObjectId × Slot)) => ∀ entry ∈ cell, ∀ id, entry.2 = .object id →
          known id)
        (fun address => refers.entries ⟨address⟩) fit dict.index }

theorem modifyEntries {dict : DictId} {change : Array (ObjectId × Slot) → Array (ObjectId × Slot)}
    (fit : ∀ entry ∈ change (store.entries dict), ∀ id, entry.2 = .object id → known id) :
    (store.modifyEntries dict change).RefersOnly known :=
  { refers with
    entries := fun other =>
      Heap.forall_read_modify
        (fun _ (cell : Array (ObjectId × Slot)) => ∀ entry ∈ cell, ∀ id, entry.2 = .object id →
          known id)
        (fun address => refers.entries ⟨address⟩) fit other.index }

theorem setEntry (dict : DictId) (text : String) (key : ObjectId) {value : Slot}
    (fit : ∀ id, value = .object id → known id) :
    (store.setEntry dict text key value).RefersOnly known := by
  unfold Store.setEntry
  split
  next place _ =>
    apply refers.modifyEntries
    intro entry among
    obtain ⟨index, found⟩ := Array.getElem?_of_mem among
    rw [Array.getElem?_modify] at found
    split at found
    · obtain ⟨old, _, same⟩ := Option.map_eq_some_iff.mp found
      rw [← same]
      exact fit
    · exact refers.entries dict entry (Array.mem_of_getElem? found)
  next =>
    apply refers.modifyEntries
    intro entry among
    rcases Array.mem_push.mp among with old | new
    · exact refers.entries dict entry old
    · rw [new]
      exact fit

theorem addDefaults {values : Array Slot} (fit : ∀ id, .object id ∈ values → known id) :
    (store.addDefaults values).2.RefersOnly known :=
  { refers with
    defaultValues := fun defaults =>
      Heap.forall_read_push (fun _ (cell : Array Slot) => ∀ id, .object id ∈ cell → known id)
        (fun address => refers.defaultValues ⟨address⟩) fit defaults.index }

theorem modifyDefaults {defaults : DefaultsId} {change : Array Slot → Array Slot}
    (fit : ∀ id, .object id ∈ change (store.defaultValues defaults) → known id) :
    (store.modifyDefaults defaults change).RefersOnly known :=
  { refers with
    defaultValues := fun other =>
      Heap.forall_read_modify (fun _ (cell : Array Slot) => ∀ id, .object id ∈ cell → known id)
        (fun address => refers.defaultValues ⟨address⟩) fit other.index }

theorem addTable {table : Table} (fit : ∀ name id, table.own? name = some (some id) → known id) :
    (store.addTable table).2.RefersOnly known :=
  { refers with
    symbols := fun other =>
      Heap.forall_read_push
        (fun _ (cell : Table) => ∀ name id, cell.own? name = some (some id) → known id)
        (fun address => refers.symbols ⟨address⟩) fit other.index }

theorem setSymbol (table : TableId) (name : String) {value : ObjectId} (fit : known value) :
    (store.setSymbol table name (some value)).RefersOnly known :=
  { refers with
    symbols := by
      intro other
      refine Heap.forall_read_modify
        (fun _ (cell : Table) => ∀ name id, cell.own? name = some (some id) → known id)
        (fun address => refers.symbols ⟨address⟩) ?_ other.index
      intro wanted id own
      rcases Table.own?_set_cases own with ⟨_, rfl⟩ | before
      · exact fit
      · exact refers.symbols table wanted id before }

theorem of_lookup {table : TableId} {name : String} (found : store.lookup table name = some id) :
    known id := by
  obtain ⟨home, _, own⟩ := exists_sees_of_lookupFrom found
  exact refers.symbols home name id own

end RefersOnly

end Store

/-! ### The realm without hidden objects -/

/-- Some objects of a machine are hidden: they are there, but not among those that every machine
has. -/
structure Machine.Hides (start : Machine) (hidden : ObjectId → Prop) : Prop where
  inside : ∀ id, hidden id → id.index < start.store.objects.size
  preset : initialObjects.length ≤ start.store.objects.size
  exposed : ∀ id, hidden id → initialObjects.length ≤ id.index

/-- Hidden objects are as they were on a machine at the start.  All references lead to objects that
are there and are not hidden. -/
structure Machine.Confines (start : Machine) (hidden : ObjectId → Prop) (machine : Machine) :
    Prop where
  objects : start.store.objects.size ≤ machine.store.objects.size
  refers : machine.store.RefersOnly fun id =>
    id.index < machine.store.objects.size ∧ ¬hidden id
  kept : ∀ id, hidden id → machine.store.object id = start.store.object id

/-- All objects that are there may be in hand, except those that are hidden. -/
def Realm.confined (start : Machine) (hidden : ObjectId → Prop) : Realm where
  knows machine id := id.index < machine.store.objects.size ∧ ¬hidden id
  owns _ := True
  reaches _ _ := True
  holds := start.Confines hidden

namespace Realm

variable {start machine later : Machine} {hidden : ObjectId → Prop}

theorem keeps_confined (confines : start.Confines hidden later)
    (more : machine.store.objects.size ≤ later.store.objects.size) :
    (confined start hidden).Keeps machine later where
  holds := confines
  knows _ known := ⟨Nat.lt_of_lt_of_le known.1 more, known.2⟩
  reaches _ reached := reached

theorem fits_confined (object : Object) : (confined start hidden).Fits machine object :=
  ⟨trivial, fun _ _ => trivial, fun _ _ _ _ _ => trivial⟩

theorem keeps_confined_objects (confines : start.Confines hidden machine)
    (same : later.store.objects = machine.store.objects)
    (refers : later.store.RefersOnly ((confined start hidden).knows machine)) :
    (confined start hidden).Keeps machine later := by
  have size : later.store.objects.size = machine.store.objects.size := congrArg Heap.size same
  refine keeps_confined ⟨?_, ?_, ?_⟩ (Nat.le_of_eq size.symm)
  · rw [size]
    exact confines.objects
  · rw [size]
    exact refers
  · intro id isHidden
    rw [← confines.kept id isHidden]
    exact congrArg (Heap.read · id.index) same

theorem keeps_confined_addObject (hides : start.Hides hidden)
    (confines : start.Confines hidden machine) (object : Object) :
    (confined start hidden).Keeps machine
      (machine.withStore (machine.store.addObject object).2) := by
  have more : machine.store.objects.size ≤ (machine.store.addObject object).2.objects.size := by
    rw [Store.size_addObject]
    exact Nat.le_succ _
  refine keeps_confined ⟨Nat.le_trans confines.objects more, ?_, ?_⟩ more
  · exact confines.refers.of_objects.mono fun id known =>
      ⟨Nat.lt_of_lt_of_le known.1 more, known.2⟩
  · intro id isHidden
    rw [← confines.kept id isHidden]
    exact machine.store.objects.read_push_old object
      (Nat.lt_of_lt_of_le (hides.inside id isHidden) confines.objects)

theorem keeps_confined_modifyObject (confines : start.Confines hidden machine)
    (exposed : ¬hidden id) (change : Object → Object) :
    (confined start hidden).Keeps machine
      (machine.withStore (machine.store.modifyObject id change)) := by
  have size : (machine.store.modifyObject id change).objects.size = machine.store.objects.size :=
    Store.size_modifyObject ..
  refine keeps_confined ⟨?_, ?_, ?_⟩ (Nat.le_of_eq size.symm)
  · rw [size]
    exact confines.objects
  · rw [size]
    exact confines.refers.of_objects
  · intro other isHidden
    rw [← confines.kept other isHidden]
    apply machine.store.objects.read_modify_away change
    intro same
    apply exposed
    have equal : id = other := congrArg ObjectId.mk same
    rw [equal]
    exact isHidden

theorem knows_preset (hides : start.Hides hidden) (confines : start.Confines hidden machine)
    (preset : id.index < initialObjects.length) : (confined start hidden).knows machine id := by
  refine ⟨Nat.lt_of_lt_of_le preset (Nat.le_trans hides.preset confines.objects), ?_⟩
  intro isHidden
  exact Nat.not_lt_of_le (hides.exposed id isHidden) preset

end Realm

/-- The names that every global table holds stand for objects that every machine has. -/
theorem Table.own?_startingNames {name : String}
    (own : ({ symbols := startingNames } : Table).own? name = some (some id)) :
    id.index < initialObjects.length := by
  have all : ∀ entry ∈ startingNames, ∀ value, entry.2 = some value →
      value.index < initialObjects.length := by decide +kernel
  obtain ⟨front, back, split, _⟩ := List.lookup_eq_some_iff.mp own
  have known : startingNames = front ++ (name, some id) :: back := split
  have among : (name, some id) ∈ startingNames := by
    rw [known]
    exact List.mem_append_right _ List.mem_cons_self
  exact all _ among id rfl

namespace Realm

variable {start : Machine} {hidden : ObjectId → Prop}

theorem closed_confined (hides : start.Hides hidden) : (confined start hidden).Closed where
  null confines := knows_preset hides confines (by decide)
  number _ := trivial
  text _ := trivial
  object _ _ := fits_confined _
  addObject {machine object} confines _ := by
    refine ⟨keeps_confined_addObject hides confines object, ?_, ?_⟩
    · exact Heap.lt_size_push _ _
    · intro isHidden
      exact Nat.not_lt_of_le confines.objects (hides.inside _ isHidden)
  claim confines known _ _ _ := keeps_confined_modifyObject confines known.2 _
  addList confines takes :=
    ⟨keeps_confined_objects confines rfl (confines.refers.addList fun id among =>
      takes _ among id rfl), trivial⟩
  items confines _ slot among id same :=
    confines.refers.items _ id (same ▸ among)
  addDict confines takes :=
    ⟨keeps_confined_objects confines rfl (confines.refers.addDict fun entry among id same =>
      takes entry among id same), trivial⟩
  addDefaults confines takes :=
    ⟨keeps_confined_objects confines rfl (confines.refers.addDefaults fun id among =>
      takes _ among id rfl), fun _ _ => trivial⟩
  defaultValues confines _ slot among id same :=
    confines.refers.defaultValues _ id (same ▸ among)
  modifyDefaults confines _ takes :=
    keeps_confined_objects confines rfl (confines.refers.modifyDefaults fun id among =>
      takes _ among id rfl)
  lookup confines _ found := confines.refers.of_lookup found
  modules _ _ := trivial
  assign name confines _ known _ :=
    keeps_confined_objects confines rfl (confines.refers.setSymbol _ name known)
  enter confines _ :=
    ⟨keeps_confined_objects confines rfl (confines.refers.addTable fun _ _ own => by cases own),
      trivial⟩

theorem shares_confined (hides : start.Hides hidden) : (confined start hidden).Shares where
  toClosed := closed_confined hides
  truth confines truth := by
    apply takes_object
    apply knows_preset hides confines
    cases truth <;> decide
  reached _ _ := trivial
  ownsList _ := trivial
  entries confines dict entry among := confines.refers.entries dict entry among
  modifyItems confines takes :=
    keeps_confined_objects confines rfl (confines.refers.modifyItems fun id among =>
      takes _ among id rfl)
  setEntry {machine} dict text key value confines takes := by
    exact keeps_confined_objects confines (machine.store.objects_setEntry ..)
      (confines.refers.setEntry dict text key takes)
  reckon confines known _ _ := keeps_confined_modifyObject confines known.2 _
  aside {machine after} confines same _ := by
    refine keeps_confined_objects confines (congrArg Store.objects same) ?_
    rw [same]
    exact confines.refers
  addTable confines known :=
    keeps_confined_objects confines rfl (confines.refers.addTable known)
  renew confines :=
    keeps_confined_objects confines rfl (confines.refers.addTable fun _ _ own =>
      knows_preset hides confines (Table.own?_startingNames own))

theorem lenient_confined (start : Machine) (hidden : ObjectId → Prop) :
    (confined start hidden).Lenient := {}

theorem hosts_confined (hides : start.Hides hidden) : (confined start hidden).Hosts :=
  ⟨closed_confined hides, (shares_confined hides).serves, trivial, fun _ => trivial⟩

theorem admits_confined (machine : Machine) (context : Context) :
    (confined start hidden).Admits machine context :=
  ⟨fun _ _ => trivial, trivial⟩

theorem loyal_confined (hides : start.Hides hidden) (limits : Limits) (depth : Nat) :
    (Evaluator.atDepth limits depth).Loyal (confined start hidden) :=
  Evaluator.loyal_atDepth (closed_confined hides) (shares_confined hides).serves trivial
    (lenient_confined start hidden) limits depth

end Realm

/-! ### Whole machines -/

namespace Machine

/-- All references lead to objects that are there, and so are those that every machine has. -/
structure Whole (machine : Machine) : Prop where
  preset : initialObjects.length ≤ machine.store.objects.size
  refers : machine.store.RefersOnly (·.index < machine.store.objects.size)

variable {limits : Limits} {avoided : Moment → Prop} {machine later : Machine}

theorem Whole.hides (whole : machine.Whole) : machine.Hides fun _ => False :=
  ⟨fun _ never => never.elim, whole.preset, fun _ never => never.elim⟩

theorem Whole.confines (whole : machine.Whole) : machine.Confines (fun _ => False) machine :=
  ⟨Nat.le_refl _, whole.refers.mono fun _ inside => ⟨inside, id⟩, fun _ _ => rfl⟩

theorem Whole.of_confines {hidden : ObjectId → Prop} (whole : machine.Whole)
    (confines : machine.Confines hidden later) : later.Whole :=
  ⟨Nat.le_trans whole.preset confines.objects, confines.refers.mono fun _ known => known.1⟩

theorem whole_initial (folder : Folder) (input : List String) : (initial folder input).Whole where
  preset := Nat.le_refl _
  refers :=
    { items := fun _ _ among => absurd among (Array.not_mem_empty _)
      entries := fun _ _ among => absurd among (Array.not_mem_empty _)
      defaultValues := fun _ _ among => absurd among (Array.not_mem_empty _)
      symbols := by
        intro table name id own
        have read : (initial folder input).store.table table =
            (#[{ symbols := startingNames }] : Array Table).getD table.index default := rfl
        rw [read] at own
        cases known : table.index with
        | zero =>
            rw [known] at own
            exact Table.own?_startingNames own
        | succ other =>
            rw [known] at own
            cases own }

theorem Reached.whole (reached : Reached limits avoided machine) : machine.Whole := by
  have initially := whole_initial {} []
  have confines := reached.holds (Realm.hosts_confined initially.hides)
    (fun folder input => ⟨Nat.le_refl _, (whole_initial folder input).confines.refers,
      fun _ never => never.elim⟩)
    fun moment _ => (Realm.lenient_confined _ _).allows limits moment
  exact initially.of_confines confines

/-- New objects are hidden, as nothing refers to them. -/
theorem Whole.hides_later (whole : machine.Whole)
    (rest : later.store = { machine.store with objects := later.store.objects })
    (grows : machine.store.objects.size ≤ later.store.objects.size) {hidden : ObjectId → Prop}
    (new : ∀ id, hidden id →
      machine.store.objects.size ≤ id.index ∧ id.index < later.store.objects.size) :
    later.Hides hidden ∧ later.Confines hidden later := by
  have refers : ({ machine.store with objects := later.store.objects } : Store).RefersOnly fun id =>
      id.index < later.store.objects.size ∧ ¬hidden id := by
    refine whole.refers.of_objects.mono fun id inside => ⟨Nat.lt_of_lt_of_le inside grows, ?_⟩
    exact fun isHidden => Nat.not_lt_of_le (new id isHidden).1 inside
  rw [← rest] at refers
  exact ⟨⟨fun id isHidden => (new id isHidden).2, Nat.le_trans whole.preset grows,
      fun id isHidden => Nat.le_trans whole.preset (new id isHidden).1⟩,
    ⟨Nat.le_refl _, refers, fun _ _ => rfl⟩⟩

theorem Whole.hides_new (whole : machine.Whole) {objects : Heap Object}
    (more : objects.size = machine.store.objects.size + 1)
    (same : later.store = { machine.store with objects }) :
    later.Hides (· = ⟨machine.store.objects.size⟩) ∧
      later.Confines (· = ⟨machine.store.objects.size⟩) later := by
  have size : later.store.objects.size = machine.store.objects.size + 1 := by
    rw [same]
    exact more
  refine whole.hides_later (by rw [same]) (by omega) ?_
  rintro id rfl
  exact ⟨Nat.le_refl _, by rw [size]; exact Nat.lt_succ_self _⟩

end Machine

end Lingo
