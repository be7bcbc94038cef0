/-
Optional parameters.

The defaults of a script function are in one place that all copies of the function share.  A
call puts the values given to it there and leaves them there.  So an optional parameter has
the value given last in any call so far, and the default only if there was none.
-/

import Lingo.Proofs.Eval.Calls

namespace Lingo

variable {name : String} {function : Object}

namespace Evaluator

/-! ### Values that are given -/

/-- The value that is given last to the optional parameter at a place. -/
def givenAt (names : List String) (place : Nat) : List (String × Slot) → Option Slot
  | [] => none
  | pair :: rest =>
      (givenAt names place rest).or
        (if names.findIdx? (· = pair.1) = some place then some pair.2 else none)

theorem getElem?_overrideDefault (names : List String) (values : Array Slot)
    (pair : String × Slot) (place : Nat) :
    (overrideDefault names values pair)[place]? = values[place]?.map fun old =>
      if names.findIdx? (· = pair.1) = some place then pair.2 else old := by
  unfold overrideDefault
  cases names.findIdx? (· = pair.1) with
  | none => simp
  | some known =>
      by_cases here : known = place
      · subst here
        by_cases inside : known < values.size
        · simp [inside]
        · simp [inside]
      · simp [here]

theorem getElem?_overrideDefaults (names : List String) (given : List (String × Slot))
    (values : Array Slot) (place : Nat) :
    (overrideDefaults names given values)[place]? =
      values[place]?.map (givenAt names place given).getD := by
  induction given generalizing values with
  | nil =>
      have same : (givenAt names place []).getD = id := rfl
      rw [same, Option.map_id_fun]
      rfl
  | cons pair rest ih =>
      have opened : overrideDefaults names (pair :: rest) values =
          overrideDefaults names rest (overrideDefault names values pair) := rfl
      have lastly : givenAt names place (pair :: rest) = (givenAt names place rest).or
          (if names.findIdx? (· = pair.1) = some place then some pair.2 else none) := rfl
      rw [opened, ih, getElem?_overrideDefault, Option.map_map, lastly]
      congr 1
      funext old
      cases givenAt names place rest with
      | none =>
          by_cases here : names.findIdx? (· = pair.1) = some place
          · simp [here]
          · simp [here]
      | some slot => simp

end Evaluator

/-- The value that a call gives to the optional parameter at a place, if the function has its
defaults at an address. -/
def Moment.gives (id : DefaultsId) (place : Nat) (moment : Moment) : Option Slot :=
  match moment.job with
  | .visit _ _ => none
  | .execution function _ given =>
      match function.payload with
      | .function closure =>
          if closure.defaults = id then Evaluator.givenAt closure.optional place given else none
      | _ => none

/-- What a place holds after some calls: what was given last, or else what it held before. -/
def DefaultsId.latest (id : DefaultsId) (place : Nat) (calls : List Moment) (old : Slot) : Slot :=
  calls.foldl (fun current call => (call.gives id place).getD current) old

theorem DefaultsId.latest_snoc (id : DefaultsId) (place : Nat) (calls : List Moment)
    (call : Moment) (old : Slot) :
    id.latest place (calls ++ [call]) old =
      (call.gives id place).getD (id.latest place calls old) := by
  unfold latest
  rw [List.foldl_append]
  rfl

/-! ### Defaults along the calls -/

/-- All old defaults are what the calls so far have made of them. -/
structure FollowsCalls (start : Machine) (calls : List Moment) (machine : Machine) : Prop where
  defaults : start.store.defaults.size ≤ machine.store.defaults.size
  latest : ∀ (id : DefaultsId) (place : Nat), id.index < start.store.defaults.size →
    (machine.store.defaultValues id)[place]? =
      (start.store.defaultValues id)[place]?.map (id.latest place calls)

theorem FollowsCalls.refl (start : Machine) : FollowsCalls start [] start := by
  constructor
  · exact Nat.le_refl _
  · intro id place _
    have same : id.latest place [] = fun slot => slot := rfl
    rw [same, Option.map_id']

theorem Entered.defaultValues {given : List (String × Slot)} {before middle : Machine}
    (entered : Entered function given before middle) (depth : Nat) (arguments : List ObjectId)
    {id : DefaultsId} (old : id.index < before.store.defaults.size) (place : Nat) :
    (middle.store.defaultValues id)[place]? =
      (before.store.defaultValues id)[place]?.map
        (Moment.gives id place ⟨depth, .execution function arguments given, before⟩).getD := by
  have unchanged : ∀ slot? : Option Slot, slot? = slot?.map (none : Option Slot).getD := by
    intro slot?
    cases slot? <;> rfl
  unfold Moment.gives
  dsimp only
  cases entered with
  | @script closure known table =>
      rw [known]
      dsimp only
      by_cases same : closure.defaults = id
      · rw [if_pos same, ← Evaluator.getElem?_overrideDefaults]
        subst same
        exact congrArg (·[place]?) (before.store.defaults.read_modify_same _ old)
      · rw [if_neg same, ← unchanged]
        have different : closure.defaults.index ≠ id.index := by
          intro equal
          apply same
          cases id
          exact congrArg DefaultsId.mk equal
        exact congrArg (·[place]?) (before.store.defaults.read_modify_away _ different)
  | builtin known table =>
      rw [known, ← unchanged]
      rfl

theorem FollowsCalls.enter {start before middle : Machine} {calls : List Moment}
    (follows : FollowsCalls start calls before) {given : List (String × Slot)}
    (entered : Entered function given before middle) (depth : Nat) (arguments : List ObjectId) :
    FollowsCalls start (calls ++ [⟨depth, .execution function arguments given, before⟩])
      middle := by
  have size : middle.store.defaults.size = before.store.defaults.size := by
    cases entered with
    | script known table => exact before.store.defaults.size_modify _ _
    | builtin known table => rfl
  constructor
  · exact Nat.le_trans follows.defaults (Nat.le_of_eq size.symm)
  · intro id place old
    rw [entered.defaultValues depth arguments (Nat.lt_of_lt_of_le old follows.defaults),
      follows.latest id place old, Option.map_map]
    congr 1
    funext slot
    exact (id.latest_snoc place calls _ slot).symm

theorem kept_followsCalls (start : Machine) : Kept (FollowsCalls start) := by
  constructor
  · intro calls before after grows follows
    constructor
    · exact Nat.le_trans follows.defaults grows.defaults
    · intro id place old
      rw [grows.keepsDefaults id (Nat.lt_of_lt_of_le old follows.defaults)]
      exact follows.latest id place old
  · intro calls depth function arguments given before middle entered follows
    exact follows.enter entered depth arguments

/-! ### Names that are bound -/

namespace Table

theorem own?_set (table : Table) (name : String) (value : Option ObjectId) (wanted : String) :
    (table.set name value).own? wanted =
      if wanted = name then some value else table.own? wanted := by
  obtain ⟨parent, title, symbols⟩ := table
  unfold own? set
  dsimp only
  induction symbols with
  | nil =>
      rw [insert, List.lookup_cons]
      grind
  | cons symbol rest ih =>
      obtain ⟨known, old⟩ := symbol
      unfold insert
      by_cases same : known = name <;> grind

theorem own?_set_cases {table : Table} {wanted : String} {value id : ObjectId}
    (own : (table.set name (some value)).own? wanted = some (some id)) :
    wanted = name ∧ id = value ∨ table.own? wanted = some (some id) := by
  grind [own?_set]

end Table

namespace Store

/-- From a table a name is looked for in another one, as no table on the way has a value for it. -/
inductive Sees (store : Store) (name : String) (home : TableId) : TableId → Prop where
  | here : Sees store name home home
  | outward {table parent : TableId} (absent : ((store.table table).own? name).join = none)
      (outer : (store.table table).parent = some parent) (sees : Sees store name home parent) :
      Sees store name home table

theorem exists_sees_of_lookupFrom {store : Store} {id : ObjectId} {fuel : Nat} {table : TableId}
    (found : store.lookupFrom name fuel table = some id) :
    ∃ home, store.Sees name home table ∧ (store.table home).own? name = some (some id) := by
  induction fuel generalizing table with
  | zero => cases found
  | succ fuel ih =>
      unfold lookupFrom at found
      dsimp only at found
      split at found
      next value own =>
        cases found
        exact ⟨table, .here, own⟩
      next unset =>
        split at found
        next parent outer =>
          obtain ⟨home, sees, own⟩ := ih found
          refine ⟨home, .outward ?_ outer sees, own⟩
          rw [Option.eq_none_iff_forall_ne_some]
          exact fun value own => unset value (Option.join_eq_some_iff.mp own)
        next => cases found

end Store

namespace Evaluator

open Activity

variable {context : Context} {table : TableId} {before after : Machine}

def bound (machine : Machine) (context : Context) (table : TableId) (name : String)
    (value : ObjectId) : Machine :=
  { machine with
    store := (machine.store.modifyObject value fun object =>
      { object with context := some context }).setSymbol table name (some value) }

theorem run_bindAll_cons (known : context.table = some table) (name : String) (value : ObjectId)
    (rest : List (String × Slot)) (before : Machine) :
    (bindAll context ((name, .object value) :: rest)).run.run before =
      (bindAll context rest).run.run (bound before context table name value) := by
  rw [bindAll]
  unfold assign tableOf
  rw [known]
  rfl

theorem bindAll_cons (known : context.table = some table) {slot : Slot}
    {rest : List (String × Slot)}
    (ends : (bindAll context ((name, slot) :: rest)).Ends before () after) :
    ∃ value, slot = .object value ∧
      (bindAll context rest).Ends (bound before context table name value) () after := by
  cases slot with
  | object value =>
      exact ⟨value, rfl, (run_bindAll_cons known name value rest before).symm.trans ends⟩
  | bare scalar => cases ends
  | nothing => cases ends

theorem table_bound (machine : Machine) (context : Context) (name : String) (value : ObjectId)
    (inside : table.index < machine.store.tables.size) :
    (bound machine context table name value).store.table table =
      (machine.store.table table).set name (some value) :=
  machine.store.tables.read_modify_same _ inside

theorem size_bound (machine : Machine) (context : Context) (name : String) (value : ObjectId) :
    (bound machine context table name value).store.tables.size = machine.store.tables.size :=
  machine.store.tables.size_modify _ _

theorem own?_bindAll_away (known : context.table = some table) {bindings : List (String × Slot)}
    (ends : (bindAll context bindings).Ends before () after)
    (inside : table.index < before.store.tables.size) (absent : name ∉ bindings.map (·.1)) :
    (after.store.table table).own? name = (before.store.table table).own? name := by
  induction bindings generalizing before with
  | nil =>
      cases ends
      rfl
  | cons binding rest ih =>
      obtain ⟨other, slot⟩ := binding
      have different : name ≠ other := fun same => absent (same ▸ List.mem_cons_self)
      have absentToo : name ∉ rest.map (·.1) := fun among => absent (List.mem_cons_of_mem _ among)
      obtain ⟨value, _, others⟩ := bindAll_cons known ends
      rw [ih others (Nat.lt_of_lt_of_eq inside (size_bound ..).symm) absentToo,
        table_bound _ _ _ _ inside, Table.own?_set, if_neg different]

theorem own?_bindAll (known : context.table = some table) {front back : List (String × Slot)}
    {slot : Slot} (ends : (bindAll context (front ++ (name, slot) :: back)).Ends before () after)
    (inside : table.index < before.store.tables.size) (last : name ∉ back.map (·.1)) :
    ∃ value, slot = .object value ∧ (after.store.table table).own? name = some (some value) := by
  induction front generalizing before with
  | nil =>
      obtain ⟨value, isObject, others⟩ := bindAll_cons known ends
      refine ⟨value, isObject, ?_⟩
      rw [own?_bindAll_away known others (Nat.lt_of_lt_of_eq inside (size_bound ..).symm) last,
        table_bound _ _ _ _ inside, Table.own?_set, if_pos rfl]
  | cons binding rest ih =>
      obtain ⟨value, _, others⟩ := bindAll_cons known ends
      exact ih others (Nat.lt_of_lt_of_eq inside (size_bound ..).symm)

/-! ### The body of a function -/

theorem ends_of_lift {α : Type} {activity : Activity α} {a : α}
    (ended : Eval.result (liftM activity) before = (.ok (.ok a), after)) :
    activity.Ends before a after := by
  cases reached : activity.run.run before with
  | mk result middle =>
      cases result with
      | ok value =>
          have same := (Eval.Ends.lift reached).symm.trans ended
          cases same
          exact reached
      | error cause =>
          have crashed : (activity >>= fun a => pure (.ok a) :
              Activity (Except Interrupt α)).run.run before = (.error cause, middle) := by
            rw [ExceptT.run_bind, StateT.run_bind, reached]
            rfl
          have same := crashed.symm.trans ended
          cases same

theorem ok_of_ofFault {α : Type} {result : Except Fault α} {a : α}
    (ended : (Eval.ofFault result).result before = (.ok (.ok a), after)) :
    result = .ok a ∧ after = before := by
  cases result with
  | ok value =>
      cases ended
      exact ⟨rfl, rfl⟩
  | error fault => cases ended

/-- The arguments are as many as the parameters, and all parameters are bound, the optional ones
last and to the defaults as they are then. -/
structure Binds (function : Object) (closure : Closure) (arguments : List ObjectId)
    (context : Context) (before ready : Machine) : Prop where
  counted : checkCount closure.name function closure.parameters arguments = .ok ()
  bound : ∃ middle,
    (bindAll context (closure.parameters.zip (arguments.map .object))).Ends before () middle ∧
      (bindAll context (closure.optional.zip
        (middle.store.defaultValues closure.defaults).toList)).Ends middle () ready

theorem Binds.optional {closure : Closure} {arguments : List ObjectId} {ready : Machine}
    (binds : Binds function closure arguments context before ready) :
    ∃ middle, before.store.Keeps context.table middle.store ∧
      (bindAll context (closure.optional.zip
        (middle.store.defaultValues closure.defaults).toList)).Ends middle () ready := by
  obtain ⟨middle, boundFirst, boundLast⟩ := binds.bound
  have touched := within_bindAll context (closure.parameters.zip (arguments.map .object)) before
  rw [boundFirst] at touched
  exact ⟨middle, touched, boundLast⟩

theorem meets_conduct {limits : Limits} {depth : Nat} {closure : Closure}
    {arguments : List ObjectId} {moment : Moment}
    (meets : Experiment.Meets (fun halts => conduct (halts.perform limits depth).evaluator function
      closure arguments context) before (fun _ => False) moment) :
    ∃ ready, Binds function closure arguments context before ready ∧
      Moment.Meets limits ⟨depth, .visit closure.body context, ready⟩ moment := by
  unfold conduct at meets
  obtain ⟨_, checked, checks, afterCount⟩ := meets.after_alone
  obtain ⟨counted, rfl⟩ := ok_of_ofFault checks
  obtain ⟨_, middle, boundFirst, afterParameters⟩ := afterCount.after_alone
  obtain ⟨_, _, stored, afterReading⟩ := afterParameters.after_alone
  cases stored
  obtain ⟨_, ready, boundLast, afterOptional⟩ := afterReading.after_alone
  refine ⟨ready, ⟨counted, middle, ends_of_lift boundFirst, ends_of_lift boundLast⟩, ?_⟩
  have heeds := Halts.heeds_perform limits depth (.visit closure.body context)
  rcases Experiment.Meets.cases_followed heeds afterOptional with
    inside | ⟨_, _, _, _, afterwards⟩
  · exact inside
  · exact absurd afterwards (Experiment.not_meets_alone _)

def callFrame (machine : Machine) (function : Object) (closure : Closure) : Frame :=
  { name := closure.name, entered := function.start, table := some ⟨machine.store.tables.size⟩ }

/-- A machine on which a call has its table, and the values given to it are in place. -/
def entering (machine : Machine) (closure : Closure) (outer : Context)
    (given : List (String × Slot)) : Machine :=
  { machine with
    store := (machine.store.addTable { parent := outer.table }).2.modifyDefaults closure.defaults
      (overrideDefaults closure.optional given) }

section

variable {limits : Limits} {depth : Nat} {function : Object} {closure : Closure}
  {arguments : List ObjectId} {given : List (String × Slot)} {body : Moment}
  (payload : function.payload = .function closure)
  (meets : Moment.Meets limits ⟨depth, .execution function arguments given, before⟩ body)

include payload meets

/-- What is met in an execution besides itself is met once a new table and the values given to
optional parameters are in place. -/
theorem meets_callFunction (other : body ≠ ⟨depth, .execution function arguments given, before⟩) :
    ∃ outer, function.context = some outer ∧
      Experiment.Meets (fun halts => conduct (halts.perform limits depth).evaluator function closure
        arguments (callFrame before function closure :: outer))
        (entering before closure outer given) (fun _ => False) body := by
  obtain ⟨_, inside⟩ := (Experiment.Meets.cases_entered meets).resolve_left other
  change Experiment.Meets (fun halts => execute (halts.perform limits depth).evaluator function
    arguments given) before _ body at inside
  unfold execute at inside
  rw [payload] at inside
  unfold callFunction at inside
  obtain ⟨context, placed, ended, inContext⟩ := inside.after_alone
  obtain ⟨_, entered, changed, conducted⟩ := inContext.after_alone
  have placedIn := ends_of_lift ended
  cases known : function.context with
  | none =>
      unfold callContext at placedIn
      rw [known] at placedIn
      cases placedIn
  | some outer =>
      have same := (ends_callContext closure.name known before).symm.trans placedIn
      cases same
      cases changed
      exact ⟨outer, rfl, conducted⟩

theorem meets_body (level : body.depth = depth)
    (other : body ≠ ⟨depth, .execution function arguments given, before⟩) :
    ∃ context entered middle, Entered function given before entered ∧
      context.table = some ⟨before.store.tables.size⟩ ∧
      entered.store.Keeps context.table middle.store ∧
      (bindAll context (closure.optional.zip
        (middle.store.defaultValues closure.defaults).toList)).Ends middle () body.machine ∧
      body.job = .visit closure.body context := by
  obtain ⟨outer, _, conducted⟩ := meets_callFunction payload meets other
  obtain ⟨ready, binds, inBody⟩ := meets_conduct conducted
  obtain ⟨middle, keeps, ends⟩ := binds.optional
  -- All that the body leads to is nested deeper.
  rcases inBody.nested with itself | deeper
  · subst itself
    exact ⟨_, _, middle, .script payload _, rfl, keeps, ends, rfl⟩
  · exact absurd level (Nat.ne_of_lt deeper)

end

/-! ### The definition of a function -/

/-- Default values are evaluated in turn.  None ends with a fault, but one that is interrupted in
another way leaves nothing. -/
inductive Computes (self : Evaluator) (context : Context) :
    List (String × Script) → Machine → List Slot → Machine → Prop where
  | nil (machine : Machine) : Computes self context [] machine [] machine
  | cons {name : String} {value : Script} {rest : List (String × Script)}
      {before middle after : Machine} {outcome : Except Interrupt ObjectId} {slots : List Slot}
      (ends : (self value context).Ends before outcome middle)
      (sound : ∀ fault, outcome ≠ .error (.failed fault))
      (others : Computes self context rest middle slots after) :
      Computes self context ((name, value) :: rest) before (settled outcome :: slots) after

theorem computes_of_defaultSlots {self : Evaluator} {optional : List (String × Script)}
    {slots : List Slot}
    (ends : (defaultSlots self context optional).Ends before (.ok slots) after) :
    Computes self context optional before slots after := by
  induction optional generalizing before slots with
  | nil =>
      cases ends
      exact .nil _
  | cons parameter rest ih =>
      obtain ⟨name, value⟩ := parameter
      have goesOn : ∀ {middle : Machine} {slot : Slot},
          (defaultSlots self context rest >>= fun slots => (pure (slot :: slots) : Eval _)).Ends
            middle (.ok slots) after →
          ∃ tail, slots = slot :: tail ∧ Computes self context rest middle tail after := by
        intro middle slot ends
        obtain ⟨outcome, last, starts, made⟩ := Eval.ends_bind_iff.mp ends
        cases outcome with
        | ok tail =>
            obtain ⟨same, rfl⟩ := Eval.ends_pure_iff.mp made
            cases same
            exact ⟨tail, rfl, ih starts⟩
        | error interrupt => cases made
      obtain ⟨outcome, middle, ended, others⟩ := Eval.ends_observe_iff.mp ends
      cases outcome with
      | ok id =>
          obtain ⟨tail, rfl, computes⟩ := goesOn others
          refine .cons ended ?_ computes
          intro fault same
          cases same
      | error interrupt =>
          cases interrupt with
          | failed fault => cases others
          | _ =>
              obtain ⟨tail, rfl, computes⟩ := goesOn others
              refine .cons ended ?_ computes
              intro fault same
              cases same

theorem heaps_of_nameValue {name : Option String} {id : ObjectId}
    (ends : (nameValue name id context).Ends before () after) :
    after.store.objects = before.store.objects ∧ after.store.defaults = before.store.defaults := by
  cases name with
  | none =>
      cases ends
      exact ⟨rfl, rfl⟩
  | some name =>
      unfold nameValue assign tableOf at ends
      cases known : context.table with
      | none =>
          rw [known] at ends
          cases ends
      | some table =>
          rw [known] at ends
          cases ends
          exact ⟨rfl, rfl⟩

section

variable {self : Evaluator} {span : Span} {name : Option String} {parameters : List String}
  {optional : List (String × Script)} {body : Script} {yields : Bool} {id : ObjectId}
  (ends : (functionValue self span name parameters optional body yields context).Ends before (.ok id) after)

include ends

/-- The definition of a function makes a value that is claimed by its context, and puts the computed
defaults at a new address. -/
theorem made_functionValue :
    ∃ slots middle, Computes self context optional before slots middle ∧
      after.store.object id =
        { payload := .function
            { name := name.getD anonymous, body, parameters, optional := optional.map (·.1)
              defaults := ⟨middle.store.defaults.size⟩, yields }
          start := some span.start, stop := some span.stop, context := some context } ∧
      after.store.defaultValues ⟨middle.store.defaults.size⟩ = slots.toArray := by
  unfold functionValue at ends
  obtain ⟨_, _, got, checked⟩ := Eval.ends_bind_iff.mp ends
  cases got
  unfold Eval.unlessInterrupted at checked
  dsimp only at checked
  split at checked
  · cases checked
  · obtain ⟨outcome, middle, computed, made⟩ := Eval.ends_bind_iff.mp checked
    cases outcome with
    | error interrupt => cases made
    | ok slots =>
        obtain ⟨_, added, adding, made⟩ := Eval.ends_bind_iff.mp made
        cases adding
        obtain ⟨_, named, making, made⟩ := Eval.ends_bind_iff.mp made
        cases making
        obtain ⟨outcome, last, naming, ended⟩ := Eval.ends_bind_iff.mp made
        cases outcome with
        | error interrupt => cases ended
        | ok done =>
            obtain ⟨same, rfl⟩ := Eval.ends_pure_iff.mp ended
            cases same
            obtain ⟨sameObjects, sameDefaults⟩ := heaps_of_nameValue (ends_of_lift naming)
            refine ⟨slots, middle, computes_of_defaultSlots computed, ?_, ?_⟩
            · unfold Store.object
              rw [sameObjects]
              exact middle.store.objects.read_push_new _
            · unfold Store.defaultValues
              rw [sameDefaults]
              exact middle.store.defaults.read_push_new _

end

/-- The address is new: evaluating the defaults may have taken some, but frees none. -/
theorem Computes.more_defaults {limits : Limits} {depth : Nat} {optional : List (String × Script)}
    {slots : List Slot}
    (computes : Computes (atDepth limits depth) context optional before slots after) :
    before.store.defaults.size ≤ after.store.defaults.size := by
  induction computes with
  | nil => exact Nat.le_refl _
  | @cons name value rest before middle after outcome slots ends sound others ih =>
      obtain ⟨calls, traced⟩ : ∃ calls, Experiment.Traced (FollowsCalls before)
          (fun halts => halts.perform limits depth (.visit value context)) before calls :=
        Halts.traced_perform (kept_followsCalls before) depth (.visit value context) before
      have follows := traced.left [] (.refl before) outcome middle
        ((Halts.result_nowhere ..).trans ends)
      exact Nat.le_trans follows.defaults ih

end Evaluator

/-! ### Calls and parameters -/

namespace Moment

def Calls (moment : Moment) (closure : Closure) : Prop :=
  ∃ function arguments given, moment.job = .execution function arguments given ∧
    function.payload = .function closure

/-- The body of a called function comes up. -/
structure Opens (limits : Limits) (call body : Moment) : Prop where
  meets : call.Meets limits body
  level : body.depth = call.depth
  other : body ≠ call

def bound? (moment : Moment) (name : String) : Option ObjectId :=
  match moment.job with
  | .visit _ context =>
      context.table.bind fun table => ((moment.machine.store.table table).own? name).join
  | .execution _ _ _ => none

end Moment

theorem zip_split {names : List String} {values : List Slot} {place : Nat} {slot : Slot}
    (named : names[place]? = some name) (held : values[place]? = some slot) :
    ∃ front, names.zip values =
      front ++ (name, slot) :: (names.drop (place + 1)).zip (values.drop (place + 1)) := by
  induction place generalizing names values with
  | zero =>
      cases names with
      | nil => cases named
      | cons first others =>
          cases values with
          | nil => cases held
          | cons value rest =>
              cases named
              cases held
              exact ⟨[], rfl⟩
  | succ place ih =>
      cases names with
      | nil => cases named
      | cons first others =>
          cases values with
          | nil => cases held
          | cons value rest =>
              obtain ⟨front, split⟩ := ih named held
              exact ⟨(first, value) :: front, congrArg ((first, value) :: ·) split⟩

theorem Moment.Opens.bound {limits : Limits} {start : Machine} {calls : List Moment}
    {call body : Moment} {closure : Closure} (follows : FollowsCalls start calls call.machine)
    (isCall : call.Calls closure) (opens : call.Opens limits body)
    (old : closure.defaults.index < start.store.defaults.size) {place : Nat} {initial : Slot}
    (named : closure.optional[place]? = some name) (last : name ∉ closure.optional.drop (place + 1))
    (held : (start.store.defaultValues closure.defaults)[place]? = some initial) :
    ∃ value, closure.defaults.latest place (calls ++ [call]) initial = .object value ∧
      body.bound? name = some value := by
  obtain ⟨depth, job, before⟩ := call
  obtain ⟨function, arguments, given, rfl, payload⟩ := isCall
  obtain ⟨context, entered, middle, enters, table, keeps, ends, visits⟩ :=
    Evaluator.meets_body payload opens.meets opens.level opens.other
  have followsToo := follows.enter enters depth arguments
  have latest : (middle.store.defaultValues closure.defaults).toList[place]? =
      some (closure.defaults.latest place
        (calls ++ [⟨depth, .execution function arguments given, before⟩]) initial) := by
    rw [Array.getElem?_toList,
      keeps.keepsDefaults _ (Nat.lt_of_lt_of_le old followsToo.defaults),
      followsToo.latest _ place old, held]
    rfl
  obtain ⟨front, split⟩ := zip_split named latest
  rw [split] at ends
  have inside : before.store.tables.size < middle.store.tables.size :=
    Nat.lt_of_lt_of_le enters.more_tables keeps.tables
  have lastToo : name ∉ ((closure.optional.drop (place + 1)).zip
      ((middle.store.defaultValues closure.defaults).toList.drop (place + 1))).map (·.1) := by
    intro among
    obtain ⟨pair, inZip, rfl⟩ := List.mem_map.mp among
    exact last (List.of_mem_zip inZip).1
  obtain ⟨value, isObject, own⟩ := Evaluator.own?_bindAll table ends inside lastToo
  refine ⟨value, isObject, ?_⟩
  unfold Moment.bound?
  rw [visits]
  dsimp only
  rw [table]
  exact congrArg Option.join own

/-- Values given to optional parameters outlive the call.  The definition of a function puts the
values computed for its defaults at a new address.  From then on, among the calls in the course of
any job, an optional parameter is bound in each call to what was given for it last, by this call
or any call before, whatever became of that call; and to the default if it was never given.  What
was given last is also what later jobs find. -/
theorem given_values_outlive_calls (limits : Limits) :
    (∀ depth span name parameters optional body yields context before id after,
      (Evaluator.atDepth limits (depth + 1) (.function span name parameters optional body yields)
        context).Ends before (.ok id) after →
      ∃ slots middle closure,
        Evaluator.Computes (Evaluator.atDepth limits depth) context optional before slots middle ∧
        (after.store.object id).payload = .function closure ∧
        closure.optional = optional.map (·.1) ∧
        before.store.defaults.size ≤ closure.defaults.index ∧
        after.store.defaultValues closure.defaults = slots.toArray) ∧
    ∀ start : Moment, ∃ calls : List Moment,
      (∀ moment, moment ∈ calls ↔ start.Meets limits moment ∧ moment.isCall) ∧
      calls.Pairwise (start.MeetsBefore limits) ∧
      (∀ earlier call later closure body, calls = earlier ++ call :: later →
        call.Calls closure → call.Opens limits body →
        closure.defaults.index < start.machine.store.defaults.size →
        ∀ place name initial, closure.optional[place]? = some name →
          name ∉ closure.optional.drop (place + 1) →
          (start.machine.store.defaultValues closure.defaults)[place]? = some initial →
          ∃ value, closure.defaults.latest place (earlier ++ [call]) initial = .object value ∧
            body.bound? name = some value) ∧
      ∀ outcome after,
        (start.job.perform limits start.depth).result start.machine = (.ok outcome, after) →
        ∀ (id : DefaultsId) place, id.index < start.machine.store.defaults.size →
          (after.store.defaultValues id)[place]? =
            (start.machine.store.defaultValues id)[place]?.map (id.latest place calls) := by
  constructor
  · intro depth span name parameters optional body yields context before id after ends
    obtain ⟨slots, middle, computes, made, values⟩ := Evaluator.made_functionValue ends
    exact ⟨slots, middle, _, computes, congrArg Object.payload made, rfl, computes.more_defaults,
      values⟩
  · intro start
    obtain ⟨calls, traced⟩ : ∃ calls, Experiment.Traced (FollowsCalls start.machine)
        (fun halts => halts.perform limits start.depth start.job) start.machine calls :=
      Halts.traced_perform (kept_followsCalls start.machine) start.depth start.job start.machine
    refine ⟨calls, ?_, traced.ordered, ?_, ?_⟩
    · intro moment
      constructor
      · intro among
        exact ⟨traced.met moment among, traced.isCall moment among⟩
      · rintro ⟨meets, isCall⟩
        exact traced.all moment meets isCall
    · intro earlier call later closure body split isCall opens old place name initial named last
        held
      have follows := traced.reached [] (.refl _) earlier call later split
      exact opens.bound follows isCall old named last held
    · intro outcome after ended id place old
      have follows := traced.left [] (.refl _) outcome after
        ((Halts.result_nowhere ..).trans ended)
      exact follows.latest id place old

def Closure.optionalOnly : Closure :=
  { name := "f", parameters := [], optional := ["a"], defaults := ⟨0⟩, yields := true
    body := .access default "a" none }

def Moment.givingTwo : Moment where
  depth := 2
  job := .execution
    { payload := .function .optionalOnly
      context := some [{ name := "<program>", entered := none, table := some ⟨0⟩ }] }
    [] [("a", .object ⟨1⟩)]
  machine :=
    { store :=
        { objects := ⟨#[{ payload := .number (.int 1) }, { payload := .number (.int 2) }]⟩
          defaults := ⟨#[#[.object ⟨0⟩]]⟩
          tables := ⟨#[{}]⟩ }
      globals := ⟨0⟩ }

def Halts.atBody : Halts
  | ⟨2, .visit _ _, _⟩ => some .tooDeep
  | _ => none

/-- In its body, the parameter is bound to two. -/
theorem given_values_outlive_calls_two :
    ∃ body, Moment.givingTwo.Opens ⟨2, 1⟩ body ∧ body.bound? "a" = some ⟨1⟩ := by
  obtain ⟨calls, among, _, binds, _⟩ := (given_values_outlive_calls ⟨2, 1⟩).2 Moment.givingTwo
  have itself : Moment.givingTwo ∈ calls := (among _).mpr ⟨Experiment.meets_entered_self, rfl⟩
  obtain ⟨earlier, later, split⟩ := List.append_of_mem itself
  obtain ⟨body, meets, stops, _⟩ : ∃ body, Moment.givingTwo.Meets ⟨2, 1⟩ body ∧
      Halts.atBody body = some .tooDeep ∧ body.machine = _ := Halts.exists_met rfl nofun
  have opens : Moment.givingTwo.Opens ⟨2, 1⟩ body := by
    unfold Halts.atBody at stops
    split at stops
    · exact ⟨meets, rfl, nofun⟩
    · cases stops
  have called : Moment.givingTwo.Calls .optionalOnly := ⟨_, _, _, rfl, rfl⟩
  obtain ⟨value, latest, bound⟩ := binds earlier _ later .optionalOnly body split called opens
    Nat.one_pos 0 "a" (.object ⟨0⟩) rfl List.not_mem_nil rfl
  rw [DefaultsId.latest_snoc] at latest
  cases latest
  exact ⟨body, opens, bound⟩

def Eval.lastNumber? : Except Crash (Except Interrupt ObjectId) × Machine → Option Int
  | (.ok (.ok id), after) => do
      let .list items := (after.store.object id).payload | none
      let some (.object last) := (after.store.items items).back? | none
      let some (.int n) := after.store.scalar? last | none
      return n
  | _ => none

/-- A function with the default one is defined, then come some calls, and then it is called with
nothing. -/
def Tree.afterCalls (calls : List Script) : Script :=
  .list default
    (.function default (some "f") [] [("a", .number default (.int 1))] (.access default "a" none)
      true :: calls ++ [.call default (.access default "f" none) [] []])

/-- The same call without an argument yields the default, or what an earlier call was given. -/
theorem call_yields_earlier_argument :
    let outermost : Context := [{ name := "<program>", entered := none, table := some ⟨0⟩ }]
    let fresh : Machine := { store := { tables := ⟨#[{}]⟩ }, globals := ⟨0⟩ }
    let earlier : Script :=
      .call default (.access default "f" none) [] [("a", .number default (.int 2))]
    Eval.lastNumber? ((Evaluator.atDepth ⟨5, 1⟩ 5 (.afterCalls []) outermost).result fresh) =
        some 1 ∧
      Eval.lastNumber? ((Evaluator.atDepth ⟨5, 1⟩ 5 (.afterCalls [earlier]) outermost).result
        fresh) = some 2 := by
  decide +kernel

end Lingo
