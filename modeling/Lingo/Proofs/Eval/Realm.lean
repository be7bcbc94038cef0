/-
Realms.

A realm says which objects an evaluation may have in hand and which symbol tables it may reach.
It is closed if whatever is made of things in hand can be in hand again.  An activity stays in a
realm if, started on a machine of the realm, it leaves one behind, however it ends, and if what it
comes to satisfies a condition.
-/

import Lingo.Proofs.Eval.Course

namespace Lingo

variable {context : Context} {id : ObjectId}

namespace Store

variable (store : Store) (dict : DictId) (text : String) (key : ObjectId) (value : Slot)

theorem objects_setEntry : (store.setEntry dict text key value).objects = store.objects := by
  unfold setEntry
  split <;> rfl

theorem tables_setEntry : (store.setEntry dict text key value).tables = store.tables := by
  unfold setEntry
  split <;> rfl

end Store

/-! ### Realms -/

abbrev Machine.withStore (machine : Machine) (store : Store) : Machine :=
  { machine with store }

structure Realm where
  /-- The objects that may be in hand. -/
  knows : Machine → ObjectId → Prop
  /-- The payloads that such objects may have. -/
  owns : Payload → Prop
  /-- The tables in which names may be found and set. -/
  reaches : Machine → TableId → Prop
  holds : Machine → Prop
  /-- Whether loop signals may leave it. -/
  signals : Prop := True
  /-- What a piece of script makes of an object that it claims. -/
  places : Object → Prop := fun _ => True
  /-- The contexts to which objects may belong. -/
  grounds : Context → Prop := fun _ => True
  /-- The faults that may leave it. -/
  reports : Fault → Prop := fun _ => True
  /-- The names that may be set in a table. -/
  binds : Machine → TableId → String → Prop := fun _ _ _ => True
  /-- The objects whose numbers may be replaced by their factorials. -/
  reckons : ObjectId → Prop := fun _ => True

namespace Realm

variable (realm : Realm)

def Takes (machine : Machine) (slot : Slot) : Prop :=
  ∀ id, slot = .object id → realm.knows machine id

/-- Scripts may be evaluated in a context. -/
structure Admits (machine : Machine) (context : Context) : Prop where
  reaches : ∀ table, context.table = some table → realm.reaches machine table
  grounds : realm.grounds context

def Binds (machine : Machine) (context : Context) (name : String) : Prop :=
  ∀ table, context.table = some table → realm.binds machine table name

/-- An object may come into hand.  The table of its context matters only if it can be called. -/
structure Fits (machine : Machine) (object : Object) : Prop where
  owns : realm.owns object.payload
  grounds : ∀ context, object.context = some context → realm.grounds context
  reaches : object.payload.isCallable = true → ∀ context, object.context = some context →
    ∀ table, context.table = some table → realm.reaches machine table

/-- An object may be the value of a piece of script, which claims it unless it is the constant for
no value. -/
def Yields (machine : Machine) (id : ObjectId) : Prop :=
  realm.knows machine id ∧ (id = Store.nullId ∨ realm.places (machine.store.object id))

/-- A machine of the realm is left behind.  What might be in hand still may, all tables that were
reached still are, and so on. -/
structure Keeps (before after : Machine) : Prop where
  holds : realm.holds after
  knows : ∀ id, realm.knows before id → realm.knows after id
  reaches : ∀ table, realm.reaches before table → realm.reaches after table
  places : ∀ id, realm.places (before.store.object id) → realm.places (after.store.object id) := by
    exact fun _ _ => trivial
  binds : ∀ table name, realm.binds before table name → realm.binds after table name := by
    exact fun _ _ _ => trivial

/-- What is complained of at a place can be reported, and whoever is called at a place can complain
in turn. -/
structure Speaks : Prop where
  placed : ∀ {object : Object}, object.start.isSome = true → object.stop.isSome = true →
    realm.places object := by exact fun _ _ => trivial
  claimed : ∀ {object : Object} (context : Option Context), realm.places object →
    realm.places { object with context } := by exact fun _ _ => trivial
  program : ∀ table, realm.grounds [{ name := "<program>", entered := none, table }] := by
    exact fun _ => trivial
  entered : ∀ {function : Object} {outer : Context} (name table), realm.places function →
    realm.grounds outer → realm.grounds ({ name, entered := function.start, table } :: outer) := by
      exact fun _ _ _ _ => trivial
  complains : ∀ {object : Object} {context : Option Context} (complaint), realm.places object →
    (∀ known, context = some known → realm.grounds known) →
      realm.reports (Operation.fault complaint object.start object.stop context) := by
        exact fun _ _ _ => trivial
  refuses : ∀ cause start stop, realm.reports (.ofText cause start stop) := by
    exact fun _ _ _ => trivial
  rejects : ∀ fault, realm.reports (.ofSyntax fault) := by exact fun _ => trivial

/-- What is made of things in hand can be in hand, and what is changed with them leaves a machine
of the realm behind. -/
structure Closed : Prop extends realm.Speaks where
  null : ∀ {machine}, realm.holds machine → realm.knows machine Store.nullId
  number : ∀ value, realm.owns (.number value)
  text : ∀ value, realm.owns (.text value)
  object : ∀ {machine id}, realm.holds machine → realm.knows machine id →
    realm.Fits machine (machine.store.object id)
  addObject : ∀ {machine object}, realm.holds machine → realm.Fits machine object →
    realm.Keeps machine (machine.withStore (machine.store.addObject object).2) ∧
      realm.knows (machine.withStore (machine.store.addObject object).2)
        ⟨machine.store.objects.size⟩
  claim : ∀ {machine id} {change : Object → Object}, realm.holds machine → realm.knows machine id →
    (∀ object, (change object).payload = object.payload) →
      (∀ object, realm.places object → realm.places (change object)) →
        realm.Fits machine (change (machine.store.object id)) →
          realm.Keeps machine (machine.withStore (machine.store.modifyObject id change))
  place : ∀ {machine id} (span : Span), realm.holds machine → realm.knows machine id →
    realm.places ((machine.store.modifyObject id fun object =>
      { object with start := some span.start, stop := some span.stop }).object id) := by
        exact fun _ _ _ => trivial
  addList : ∀ {machine items}, realm.holds machine → (∀ slot ∈ items, realm.Takes machine slot) →
    realm.Keeps machine (machine.withStore (machine.store.addList items).2) ∧
      realm.owns (.list ⟨machine.store.lists.size⟩)
  items : ∀ {machine id}, realm.holds machine → realm.owns (.list id) →
    ∀ slot ∈ machine.store.items id, realm.Takes machine slot
  addDict : ∀ {machine} {entries : Array (ObjectId × Slot)}, realm.holds machine →
    (∀ entry ∈ entries, realm.Takes machine entry.2) →
    realm.Keeps machine (machine.withStore (machine.store.addDict entries).2) ∧
      realm.owns (.dict ⟨machine.store.dicts.size⟩)
  addDefaults : ∀ {machine values}, realm.holds machine →
    (∀ slot ∈ values, realm.Takes machine slot) →
    realm.Keeps machine (machine.withStore (machine.store.addDefaults values).2) ∧
      ∀ closure : Closure, closure.defaults = ⟨machine.store.defaults.size⟩ →
        realm.owns (.function closure)
  defaultValues : ∀ {machine} {closure : Closure}, realm.holds machine →
    realm.owns (.function closure) →
      ∀ slot ∈ machine.store.defaultValues closure.defaults, realm.Takes machine slot
  modifyDefaults : ∀ {machine} {closure : Closure} {change : Array Slot → Array Slot},
    realm.holds machine → realm.owns (.function closure) →
      (∀ slot ∈ change (machine.store.defaultValues closure.defaults), realm.Takes machine slot) →
        realm.Keeps machine
          (machine.withStore (machine.store.modifyDefaults closure.defaults change))
  lookup : ∀ {machine table name id}, realm.holds machine → realm.reaches machine table →
    machine.store.lookup table name = some id → realm.knows machine id
  modules : ∀ {machine table}, realm.holds machine → table ∈ machine.modules →
    realm.reaches machine table
  assign : ∀ {machine table id} (name), realm.holds machine → realm.reaches machine table →
    realm.knows machine id → realm.binds machine table name →
      realm.Keeps machine (machine.withStore (machine.store.setSymbol table name (some id)))
  enter : ∀ {machine} {parent : Option TableId}, realm.holds machine →
    (∀ table, parent = some table → realm.reaches machine table) →
      realm.Keeps machine (machine.withStore (machine.store.addTable { parent }).2) ∧
        realm.reaches (machine.withStore (machine.store.addTable { parent }).2)
          ⟨machine.store.tables.size⟩
  /-- In the table of a call any name may be set. -/
  fresh : ∀ {machine} {parent : Option TableId} (name), realm.holds machine →
    realm.binds (machine.withStore (machine.store.addTable { parent }).2)
      ⟨machine.store.tables.size⟩ name := by exact fun _ _ => trivial

variable {realm} {before middle after : Machine}

theorem takes_object (known : realm.knows before id) : realm.Takes before (.object id) := by
  intro other same
  cases same
  exact known

theorem takes_zip {arguments : List ObjectId} (known : ∀ id ∈ arguments, realm.knows before id)
    (parameters : List String) :
    ∀ binding ∈ parameters.zip (arguments.map Slot.object), realm.Takes before binding.2 := by
  intro binding among
  obtain ⟨id, member, same⟩ := List.mem_map.mp (List.of_mem_zip among).2
  rw [← same]
  exact takes_object (known id member)

theorem Keeps.trans (first : realm.Keeps before middle) (second : realm.Keeps middle after) :
    realm.Keeps before after :=
  ⟨second.holds, fun id known => second.knows id (first.knows id known),
    fun table reached => second.reaches table (first.reaches table reached),
    fun id placed => second.places id (first.places id placed),
    fun table name bound => second.binds table name (first.binds table name bound)⟩

theorem Keeps.refl (holds : realm.holds before) : realm.Keeps before before :=
  ⟨holds, fun _ known => known, fun _ reached => reached, fun _ placed => placed,
    fun _ _ bound => bound⟩

theorem Takes.keeps {slot : Slot} (takes : realm.Takes before slot)
    (keeps : realm.Keeps before after) : realm.Takes after slot :=
  fun id same => keeps.knows id (takes id same)

theorem Keeps.knowsAll (keeps : realm.Keeps before after) {ids : List ObjectId}
    (known : ∀ id ∈ ids, realm.knows before id) : ∀ id ∈ ids, realm.knows after id :=
  fun id among => keeps.knows id (known id among)

theorem Admits.keeps (admits : realm.Admits before context) (keeps : realm.Keeps before after) :
    realm.Admits after context :=
  ⟨fun table known => keeps.reaches table (admits.reaches table known), admits.grounds⟩

theorem Binds.keeps {name : String} (binds : realm.Binds before context name)
    (keeps : realm.Keeps before after) : realm.Binds after context name :=
  fun table known => keeps.binds table name (binds table known)

theorem Yields.keeps (yields : realm.Yields before id) (keeps : realm.Keeps before after) :
    realm.Yields after id :=
  ⟨keeps.knows id yields.1, yields.2.imp_right (keeps.places id)⟩

theorem Fits.keeps {object : Object} (fits : realm.Fits before object)
    (keeps : realm.Keeps before after) : realm.Fits after object :=
  ⟨fits.owns, fits.grounds, fun callable context known table own =>
    keeps.reaches table (fits.reaches callable context known table own)⟩

theorem Fits.admits {object : Object} (fits : realm.Fits before object)
    (callable : object.payload.isCallable = true) (known : object.context = some context) :
    realm.Admits before context :=
  ⟨fits.reaches callable context known, fits.grounds context known⟩

theorem fits_claimed {payload : Payload} (owns : realm.owns payload)
    (admits : realm.Admits before context) (start stop : Option Position) :
    realm.Fits before { payload, start, stop, context := some context } where
  owns := owns
  grounds other same := by
    cases same
    exact admits.grounds
  reaches _ other same := by
    cases same
    exact admits.reaches

theorem fits_uncalled {object : Object} (owns : realm.owns object.payload)
    (uncalled : object.payload.isCallable = false)
    (grounds : ∀ context, object.context = some context → realm.grounds context) :
    realm.Fits before object where
  owns := owns
  grounds := grounds
  reaches callable := by
    rw [uncalled] at callable
    cases callable

end Realm

/-! ### Activities -/

namespace Activity

variable {α β : Type} {realm : Realm} {before : Machine}

/-- Started on a machine of the realm, an activity leaves one behind, and its result and the machine
then satisfy a condition. -/
structure Stays (realm : Realm) (activity : Activity α) (before : Machine)
    (post : α → Machine → Prop) : Prop where
  keeps : realm.holds before → ∀ {outcome after}, activity.run.run before = (outcome, after) →
    realm.Keeps before after
  finds : realm.holds before → ∀ {a after}, activity.Ends before a after → post a after

variable {post : α → Machine → Prop} {activity : Activity α}

theorem Stays.imp {wider : α → Machine → Prop} (stays : activity.Stays realm before post)
    (entails : ∀ a after, post a after → wider a after) : activity.Stays realm before wider where
  keeps := stays.keeps
  finds holds _ _ ended := entails _ _ (stays.finds holds ended)

theorem stays_of_ends {a : α} (reached : Machine) (ends : activity.Ends before a reached)
    (law : realm.holds before → realm.Keeps before reached ∧ post a reached) :
    activity.Stays realm before post where
  keeps holds outcome after ended := by
    have same := ends.symm.trans ended
    cases same
    exact (law holds).1
  finds holds value after ended := by
    have same := ends.symm.trans ended
    cases same
    exact (law holds).2

theorem stays_holding {a : α} (found : realm.holds before → post a before) :
    (pure a : Activity α).Stays realm before post :=
  stays_of_ends _ (ends_pure a before) fun holds => ⟨.refl holds, found holds⟩

theorem stays_pure {a : α} (found : post a before) :
    (pure a : Activity α).Stays realm before post :=
  stays_holding fun _ => found

theorem stays_crash (cause : Crash) : (crash cause : Activity α).Stays realm before post where
  keeps holds outcome after ended := by
    cases ended
    exact .refl holds
  finds _ _ _ ended := by cases ended

theorem Stays.bind {first : Activity α} {next : α → Activity β} {middle : α → Machine → Prop}
    {post : β → Machine → Prop} (starts : first.Stays realm before middle)
    (goesOn : ∀ a reached, realm.Keeps before reached → middle a reached →
      (next a).Stays realm reached post) : (first >>= next).Stays realm before post := by
  constructor
  · intro holds outcome after ended
    rcases run_bind_cases ended with ⟨_, crashed, _⟩ | ⟨a, reached, first, rest⟩
    · exact starts.keeps holds crashed
    · have kept := starts.keeps holds first
      have further := goesOn a reached kept (starts.finds holds first)
      exact kept.trans (further.keeps kept.holds rest)
  · intro holds b after ended
    rcases run_bind_cases ended with ⟨_, _, same⟩ | ⟨a, reached, first, rest⟩
    · cases same
    · have kept := starts.keeps holds first
      exact (goesOn a reached kept (starts.finds holds first)).finds kept.holds rest

theorem stays_still (still : activity.Within .still) :
    activity.Stays realm before fun a reached =>
      before = reached ∧ realm.holds before ∧ activity.Ends before a before where
  keeps holds _ _ ended := by
    cases still.unchanged ended
    exact .refl holds
  finds holds _ _ ended := by
    cases still.unchanged ended
    exact ⟨rfl, holds, ended⟩

theorem Stays.look {first : Activity α} {next : α → Activity β} {post : β → Machine → Prop}
    (still : first.Within .still)
    (goesOn : ∀ a, realm.holds before → first.Ends before a before →
      (next a).Stays realm before post) : (first >>= next).Stays realm before post := by
  apply (stays_still still).bind
  rintro a _ _ ⟨rfl, holds, ended⟩
  exact goesOn a holds ended

theorem eq_some_of_part {found : Option α} {a : α} {after : Machine}
    (ended : (part found : Activity α).Ends before a after) : found = some a := by
  cases found with
  | none => cases ended
  | some b =>
      cases ended
      rfl

/-! #### Objects -/

variable (closed : realm.Closed)

include closed

theorem stays_addObject {object : Object} (fits : realm.Fits before object) :
    (addObject object).Stays realm before fun id after => realm.knows after id :=
  stays_of_ends _ (ends_addObject object before) fun holds => closed.addObject holds fits

theorem stays_make {payload : Payload} (owns : realm.owns payload)
    (admits : realm.Admits before context) (span : Span) :
    (make payload span context).Stays realm before fun id after => realm.Yields after id := by
  refine stays_of_ends _ (ends_addObject _ before) fun holds => ?_
  obtain ⟨keeps, known⟩ := closed.addObject holds (Realm.fits_claimed owns admits _ _)
  refine ⟨keeps, known, .inr (closed.placed ?_ ?_)⟩ <;>
    exact congrArg _ (congrArg _ (before.store.objects.read_push_new _))

theorem stays_makeBare {payload : Payload} (owns : realm.owns payload) :
    (makeBare payload).Stays realm before fun id after => realm.knows after id :=
  stays_addObject closed ⟨owns, fun _ none => (by cases none), fun _ _ none => (by cases none)⟩

theorem stays_copy (known : realm.knows before id) :
    (copy id).Stays realm before fun copied after => realm.knows after copied := by
  apply Stays.look (within_object id)
  intro subject holds ended
  cases ended
  have fits := closed.object holds known
  cases (before.store.object id).payload with
  | plain => exact stays_crash _
  | bodiless name => exact stays_crash _
  | _ => exact stays_addObject closed fits

theorem stays_setPlace (known : realm.knows before id) (span : Span) :
    (setPlace id span).Stays realm before fun _ after =>
      realm.knows after id ∧ realm.places (after.store.object id) := by
  refine stays_of_ends (before.withStore _) rfl fun holds => ?_
  have fits := closed.object holds known
  have keeps : realm.Keeps before (before.withStore (before.store.modifyObject id fun object =>
      { object with start := some span.start, stop := some span.stop })) :=
    closed.claim holds known (fun _ => rfl) (fun _ _ => closed.placed rfl rfl)
      ⟨fits.owns, fits.grounds, fits.reaches⟩
  exact ⟨keeps, keeps.knows id known, closed.place span holds known⟩

theorem stays_setContext (known : realm.knows before id) (admits : realm.Admits before context) :
    (setContext id context).Stays realm before fun _ _ => True := by
  refine stays_of_ends (before.withStore _) rfl fun holds => ⟨?_, trivial⟩
  have fits := closed.object holds known
  exact closed.claim holds known (fun _ => rfl) (fun _ => closed.claimed _)
    (Realm.fits_claimed fits.owns admits _ _)

/-! #### Lists, dictionaries and defaults -/

theorem stays_addList {items : Array Slot} (takes : ∀ slot ∈ items, realm.Takes before slot) :
    (addList items).Stays realm before fun id _ => realm.owns (.list id) :=
  stays_of_ends _ (ends_addList items before) fun holds => closed.addList holds takes

theorem stays_addDict {entries : Array (ObjectId × Slot)}
    (takes : ∀ entry ∈ entries, realm.Takes before entry.2) :
    (addDict entries).Stays realm before fun id _ => realm.owns (.dict id) :=
  stays_of_ends (before.withStore _) rfl fun holds => closed.addDict holds takes

theorem stays_addDefaults {values : Array Slot} (takes : ∀ slot ∈ values, realm.Takes before slot) :
    (addDefaults values).Stays realm before fun id _ =>
      ∀ closure : Closure, closure.defaults = id → realm.owns (.function closure) :=
  stays_of_ends (before.withStore _) rfl fun holds => closed.addDefaults holds takes

/-! #### Tables -/

theorem stays_assign (admits : realm.Admits before context) {name : String}
    (binds : realm.Binds before context name) (known : realm.knows before id) :
    (assign context name id).Stays realm before fun _ _ => True := by
  apply Stays.look (within_tableOf context)
  intro table holds ended
  have found := eq_some_of_part ended
  refine stays_of_ends (before.withStore _) rfl fun holds => ⟨?_, trivial⟩
  exact closed.assign name holds (admits.reaches _ found) known (binds _ found)

theorem stays_lookup (admits : realm.Admits before context) (name : String) :
    (lookup context name).Stays realm before fun found after =>
      ∀ id ∈ found, realm.knows after id := by
  apply Stays.look (within_tableOf context)
  intro table holds ended
  have found := eq_some_of_part ended
  refine stays_of_ends before rfl fun holds => ⟨.refl holds, ?_⟩
  intro id known
  exact closed.lookup holds (admits.reaches _ found) known

omit closed

end Activity

/-! ### Evaluations -/

/-- An interruption may leave a realm.  What a return statement carries outward may be in hand. -/
def Realm.Releases (realm : Realm) (machine : Machine) : Interrupt → Prop
  | .failed fault => realm.reports fault
  | .returned id => realm.knows machine id
  | .skipped => realm.signals
  | .left => realm.signals

namespace Eval

open Activity

variable {α β : Type} {realm : Realm} {before : Machine} {next : α → Eval β}
  {middle : α → Machine → Prop} {activity : Activity α}

/-- The value and the machine then satisfy a condition, or an interruption may leave the realm. -/
def Finds (realm : Realm) (post : α → Machine → Prop) : Except Interrupt α → Machine → Prop
  | .ok a, after => post a after
  | .error interrupt, after => realm.Releases after interrupt

def Stays (realm : Realm) (evaluation : Eval α) (before : Machine)
    (post : α → Machine → Prop) : Prop :=
  Activity.Stays realm evaluation.run before (Finds realm post)

variable {post : α → Machine → Prop} {evaluation : Eval α}

theorem Stays.imp {wider : α → Machine → Prop} (stays : evaluation.Stays realm before post)
    (entails : ∀ a after, post a after → wider a after) :
    evaluation.Stays realm before wider := by
  apply Activity.Stays.imp stays
  intro outcome after found
  cases outcome with
  | ok a => exact entails a after found
  | error interrupt => exact found

theorem stays_pure {a : α} (found : post a before) : (pure a : Eval α).Stays realm before post :=
  Activity.stays_pure found

theorem stays_throw {interrupt : Interrupt} (releases : realm.Releases before interrupt) :
    (throw interrupt : Eval α).Stays realm before post :=
  Activity.stays_pure releases

theorem stays_null (closed : realm.Closed) :
    (pure Store.nullId : Eval ObjectId).Stays realm before fun id after => realm.Yields after id :=
  Activity.stays_holding fun holds => ⟨closed.null holds, .inl rfl⟩

theorem stays_fail {fault : Fault} (reports : realm.reports fault) :
    (fail fault : Eval α).Stays realm before post :=
  stays_throw reports

theorem Stays.ends (stays : evaluation.Stays realm before post) :
    evaluation.Stays realm before fun a after =>
      post a after ∧ evaluation.Ends before (.ok a) after where
  keeps := Activity.Stays.keeps stays
  finds holds outcome after ended := by
    have found := Activity.Stays.finds stays holds ended
    cases outcome with
    | ok a => exact ⟨found, ended⟩
    | error interrupt => exact found

theorem Stays.lift (stays : activity.Stays realm before post) :
    Stays realm (liftM activity) before post := by
  apply Activity.Stays.bind stays
  intro a reached _ found
  exact Activity.stays_pure found

theorem stays_crash (cause : Crash) :
    Stays realm (liftM (crash cause : Activity α)) before post :=
  .lift (Activity.stays_crash cause)

variable {post : β → Machine → Prop}

theorem Stays.observe {first : Eval α} {next : Except Interrupt α → Eval β}
    (starts : first.Stays realm before middle)
    (goesOn : ∀ outcome reached, realm.Keeps before reached → Finds realm middle outcome reached →
      (next outcome).Stays realm reached post) :
    (first.observe >>= next).Stays realm before post := by
  have opened : (first.observe >>= next).run =
      first.run >>= fun outcome => (next outcome).run := by
    unfold Eval.observe
    simp only [ExceptT.run_bind, ExceptT.run_lift, bind_map_left]
  unfold Stays
  rw [opened]
  exact Activity.Stays.bind starts goesOn

theorem Stays.bind {first : Eval α}
    (starts : first.Stays realm before middle)
    (goesOn : ∀ a reached, realm.Keeps before reached → middle a reached →
      (next a).Stays realm reached post) : (first >>= next).Stays realm before post := by
  rw [bind_eq_observe]
  apply starts.observe
  intro outcome reached kept found
  cases outcome with
  | ok a => exact goesOn a reached kept found
  | error interrupt => exact stays_throw found

theorem Stays.act (starts : activity.Stays realm before middle)
    (goesOn : ∀ a reached, realm.Keeps before reached → middle a reached →
      (next a).Stays realm reached post) : Stays realm (liftM activity >>= next) before post :=
  (Stays.lift starts).bind goesOn

theorem Stays.look (still : activity.Within .still)
    (goesOn : ∀ a, realm.holds before → activity.Ends before a before →
      (next a).Stays realm before post) : Stays realm (liftM activity >>= next) before post := by
  apply Stays.act (stays_still still)
  rintro a _ _ ⟨rfl, holds, ended⟩
  exact goesOn a holds ended

theorem Stays.ofFault {result : Except Fault α}
    (reports : ∀ fault, result = .error fault → realm.reports fault)
    (goesOn : ∀ a, result = .ok a → (next a).Stays realm before post) :
    (Eval.ofFault result >>= next).Stays realm before post := by
  cases result with
  | error fault =>
      have failing : (Eval.ofFault (.error fault : Except Fault α)).Stays realm before
          fun _ _ => False := stays_fail (reports fault rfl)
      apply failing.bind
      intro a reached _ impossible
      exact impossible.elim
  | ok a =>
      have ended : (Eval.ofFault (.ok a : Except Fault α)).Stays realm before
          fun b reached => b = a ∧ reached = before := stays_pure ⟨rfl, rfl⟩
      apply ended.bind
      rintro _ _ _ ⟨rfl, rfl⟩
      exact goesOn _ rfl

theorem Stays.object (closed : realm.Closed) (known : realm.knows before id)
    {next : Object → Eval β}
    (goesOn : realm.holds before → realm.Fits before (before.store.object id) →
      (next (before.store.object id)).Stays realm before post) :
    Stays realm (liftM (Activity.object id) >>= next) before post := by
  apply Stays.look (within_object id)
  intro subject holds ended
  cases ended
  exact goesOn holds (closed.object holds known)

theorem Stays.settle {result : Except Crash α}
    (goesOn : ∀ a, result = .ok a → (next a).Stays realm before post) :
    ((Activity.settle result : Eval α) >>= next).Stays realm before post := by
  apply Stays.look (Activity.within_settle result)
  intro a _ ended
  cases result with
  | error cause => cases ended
  | ok value =>
      cases ended
      exact goesOn a rfl

theorem Stays.objectAt {slot : Slot} (takes : realm.Takes before slot) {next : ObjectId → Eval β}
    (goesOn : ∀ id, realm.knows before id → (next id).Stays realm before post) :
    Stays realm (liftM (Activity.objectAt slot) >>= next) before post := by
  apply Stays.look (within_objectAt slot)
  intro id _ ended
  cases slot with
  | object other =>
      cases ended
      exact goesOn id (takes id rfl)
  | bare held => cases ended
  | nothing => cases ended

end Eval

end Lingo
