/-
Symbol tables as nested scopes.

Requests make tables, set and remove names in them and look names up.  Whatever requests were
served, a name stands for its value in the nearest enclosing table that has one, and setting or
removing a name in a table matters only where the search for this name comes to that table.
-/

import Lingo.Proofs.Eval.Constants
import Lingo.Proofs.Eval.Scope

namespace Lingo

/-- What can be asked of symbol tables. -/
inductive Request where
  | make (parent : Option TableId) (title : Option String)
  | set (table : TableId) (name : String) (value : Option ObjectId)
  | get (table : TableId) (name : String)
  | remove (table : TableId) (name : String)

namespace Request

def tables : Request → List TableId
  | make parent _ => parent.toList
  | set table _ _ | get table _ | remove table _ => [table]

/-- The parent of the table that is made, if one is. -/
def parents : Request → List (Option TableId)
  | make parent _ => [parent]
  | set _ _ _ | get _ _ | remove _ _ => []

/-- What a table holds under a name after a request, by what it held before. -/
def leaves (table : TableId) (name : String) (entry : Option (Option ObjectId)) :
    Request → Option (Option ObjectId)
  | set other known value => if (table, name) = (other, known) then some value else entry
  | remove other known => if (table, name) = (other, known) then none else entry
  | _ => entry

def Proper (made : Nat) : List Request → Prop
  | [] => True
  | request :: rest => (∀ table ∈ request.tables, table.index < made) ∧
      Proper (made + request.parents.length) rest

end Request

theorem Table.own?_remove (table : Table) (name wanted : String) :
    (table.remove name).own? wanted = if wanted = name then none else table.own? wanted := by
  obtain ⟨parent, title, symbols⟩ := table
  unfold own? remove
  dsimp only
  induction symbols with
  | nil => simp
  | cons symbol rest ih =>
      obtain ⟨known, value⟩ := symbol
      by_cases here : known = name <;> grind

namespace Store

/-- The answer to a request, and the store then.  A request that crashes changes nothing. -/
def serve (store : Store) : Request → Except Crash (Option ObjectId) × Store
  | .make parent title => (.ok none, (store.addTable { parent, name := title }).2)
  | .set table name value => (.ok none, store.setSymbol table name value)
  | .get table name => (.ok (store.lookup table name), store)
  | .remove table name =>
      match store.removeSymbol table name with
      | .ok after => (.ok none, after)
      | .error crash => (.error crash, store)

def served (store : Store) (requests : List Request) : Store :=
  requests.foldl (fun store request => (store.serve request).2) store

/-! ### Looking for a name -/

variable {store before after : Store} {name : String} {home table : TableId}

theorem Nested.outward (nested : store.Nested) {motive : TableId → Prop}
    (step : ∀ id, (∀ parent, (store.table id).parent = some parent → motive parent) → motive id)
    (id : TableId) : motive id :=
  step id fun parent _ => nested.outward step parent
termination_by id.index
decreasing_by exact nested _ _ ‹_›

theorem Sees.encloses (sees : store.Sees name home table) : store.Encloses home table := by
  induction sees with
  | here => exact .itself
  | outward _ outer _ ih => exact .outward outer ih

theorem Encloses.index_le (encloses : store.Encloses home table) (nested : store.Nested) :
    home.index ≤ table.index := by
  induction encloses with
  | itself => exact Nat.le_refl _
  | outward known _ ih => exact Nat.le_trans ih (Nat.le_of_lt (nested _ _ known))

theorem Nested.lookup_eq_some_iff (nested : store.Nested) {value : ObjectId} :
    store.lookup table name = some value ↔
      ∃ home, store.Sees name home table ∧ (store.table home).own? name = some (some value) := by
  constructor
  · exact exists_sees_of_lookupFrom
  · rintro ⟨home, sees, own⟩
    rw [sees.lookup_eq nested, nested.lookup_eq, own]
    rfl

theorem Nested.lookup_eq_none_iff (nested : store.Nested) :
    store.lookup table name = none ↔
      ∀ outer, store.Encloses outer table → ((store.table outer).own? name).join = none := by
  constructor
  · intro missing outer encloses
    induction encloses with
    | itself =>
        rw [nested.lookup_eq] at missing
        exact (Option.or_eq_none_iff.mp missing).1
    | outward known _ ih =>
        rw [nested.lookup_eq, known] at missing
        exact ih (Option.or_eq_none_iff.mp missing).2
  · intro absent
    rw [Option.eq_none_iff_forall_ne_some]
    intro value found
    obtain ⟨home, sees, own⟩ := nested.lookup_eq_some_iff.mp found
    cases own ▸ absent home sees.encloses

/-! ### Changing one entry -/

/-- A table's own entry for a name becomes another, and all else about tables stays. -/
structure Amends (before after : Store) (table : TableId) (name : String)
    (entry : Option (Option ObjectId)) : Prop where
  size : after.tables.size = before.tables.size
  parents : ∀ other, (after.table other).parent = (before.table other).parent
  entries : ∀ other wanted, (after.table other).own? wanted =
    if (other, wanted) = (table, name) then entry else (before.table other).own? wanted

theorem amends_modify {entry : Option (Option ObjectId)} {change : Table → Table}
    (inside : table.index < store.tables.size) (parent : ∀ cell, (change cell).parent = cell.parent)
    (own : ∀ cell wanted,
      (change cell).own? wanted = if wanted = name then entry else cell.own? wanted) :
    store.Amends { store with tables := store.tables.modify table.index change } table name
      entry where
  size := store.tables.size_modify _ _
  parents other := Heap.forall_read_modify
    (fun address (cell : Table) => cell.parent = (store.tables.read address).parent)
    (fun _ => rfl) (parent _) other.index
  entries other wanted := by
    obtain ⟨address⟩ := other
    by_cases here : table.index = address
    · subst here
      have changed := store.tables.read_modify_same change inside
      simpa [Store.table, changed] using own _ wanted
    · have kept := store.tables.read_modify_away change here
      have other : ⟨address⟩ ≠ table := fun same => here (congrArg TableId.index same).symm
      simp [Store.table, kept, other]

theorem amends_setSymbol (inside : table.index < store.tables.size) (value : Option ObjectId) :
    store.Amends (store.setSymbol table name value) table name (some value) :=
  amends_modify inside (fun _ => rfl) (·.own?_set name value)

theorem serve_remove_cases (inside : table.index < store.tables.size) (name : String) :
    (store.table table).own? name = none ∧
        store.serve (.remove table name) = (.error .missingKey, store) ∨
      (store.table table).own? name ≠ none ∧ ∃ after,
        store.serve (.remove table name) = (.ok none, after) ∧
          store.Amends after table name none := by
  dsimp only [serve, removeSymbol]
  cases (store.table table).own? name with
  | none => exact .inl ⟨rfl, rfl⟩
  | some entry =>
      exact .inr ⟨nofun, _, rfl, amends_modify inside (fun _ => rfl) (·.own?_remove name)⟩

/-- A name stands for a value, or for what it stands for in the parent of a table, where it is
looked for in that table.  Nothing else that is looked up changes. -/
def Revalues (before after : Store) (table : TableId) (name : String) (value : Option ObjectId) :
    Prop :=
  ∀ other wanted,
    (wanted = name ∧ before.Sees name table other → after.lookup other wanted =
      value.or ((before.table table).parent.bind (before.lookup · name))) ∧
    (¬(wanted = name ∧ before.Sees name table other) →
      after.lookup other wanted = before.lookup other wanted)

namespace Amends

variable {entry : Option (Option ObjectId)} (amends : before.Amends after table name entry)

include amends

theorem nested (nested : before.Nested) : after.Nested :=
  fun id parent known => nested id parent ((amends.parents id).symm.trans known)

theorem lookup_away (nested : before.Nested) {other : TableId} {wanted : String}
    (away : ¬(wanted = name ∧ before.Sees name table other)) :
    after.lookup other wanted = before.lookup other wanted := by
  induction other using nested.outward with
  | step other ih =>
      have elsewhere : (other, wanted) ≠ (table, name) := by
        rintro ⟨⟩
        exact away ⟨rfl, .here⟩
      rw [nested.lookup_eq, (amends.nested nested).lookup_eq, amends.parents, amends.entries,
        if_neg elsewhere]
      cases absent : ((before.table other).own? wanted).join with
      | some value => rfl
      | none =>
          apply Option.bind_congr
          intro parent outer
          apply ih parent outer
          rintro ⟨rfl, sees⟩
          exact away ⟨rfl, .outward absent outer sees⟩

theorem lookup_here (nested : before.Nested) {other : TableId}
    (sees : before.Sees name table other) : after.lookup other name =
      entry.join.or ((before.table table).parent.bind (before.lookup · name)) := by
  induction sees with
  | here =>
      rw [(amends.nested nested).lookup_eq, amends.parents, amends.entries, if_pos rfl]
      congr 1
      apply Option.bind_congr
      intro parent outer
      apply amends.lookup_away nested
      rintro ⟨_, sees⟩
      exact Nat.not_le_of_lt (nested _ _ outer) (sees.encloses.index_le nested)
  | @outward other parent absent outer sees ih =>
      have elsewhere : (other, name) ≠ (table, name) := by
        rintro ⟨⟩
        exact Nat.not_le_of_lt (nested _ _ outer) (sees.encloses.index_le nested)
      rw [(amends.nested nested).lookup_eq, amends.parents, amends.entries, if_neg elsewhere,
        absent, outer]
      exact ih

theorem revalues (nested : before.Nested) : before.Revalues after table name entry.join := by
  intro other wanted
  refine ⟨?_, amends.lookup_away nested⟩
  rintro ⟨rfl, sees⟩
  exact amends.lookup_here nested sees

end Amends

/-! ### Serving requests -/

/-- The tables are nested, have certain parents and hold certain entries. -/
structure Follows (store : Store) (parents : List (Option TableId))
    (entry : TableId → String → Option (Option ObjectId)) : Prop where
  nested : store.Nested
  size : store.tables.size = parents.length
  parents : ∀ table : TableId, (store.table table).parent = parents[table.index]?.join
  entries : ∀ table name, (store.table table).own? name = entry table name

variable {parents : List (Option TableId)} {entry : TableId → String → Option (Option ObjectId)}

theorem Amends.follows {value : Option (Option ObjectId)}
    (amends : before.Amends after table name value) (follows : before.Follows parents entry) :
    after.Follows parents fun other wanted =>
      if (other, wanted) = (table, name) then value else entry other wanted where
  nested := amends.nested follows.nested
  size := amends.size.trans follows.size
  parents other := (amends.parents other).trans (follows.parents other)
  entries other wanted := by
    rw [amends.entries, follows.entries]

theorem Follows.addTable (follows : store.Follows parents entry) {parent : Option TableId}
    (older : ∀ table ∈ parent, table.index < store.tables.size) (title : Option String) :
    (store.addTable { parent, name := title }).2.Follows (parents ++ [parent]) entry where
  nested := follows.nested.addTable older
  size := by
    rw [List.length_append, ← follows.size]
    exact store.tables.size_push _
  parents table := by
    by_cases new : table.index = store.tables.size
    · have made := store.tables.read_push_new { parent, name := title }
      rw [new, follows.size, List.getElem?_concat_length]
      exact congrArg Table.parent ((congrArg _ new).trans made)
    · rcases store.tables.read_push_cases { parent, name := title } table.index with
        same | ⟨fresh, _⟩
      · refine (congrArg Table.parent same).trans ((follows.parents table).trans ?_)
        rw [follows.size] at new
        grind
      · exact absurd fresh new
  entries table name :=
    Heap.forall_read_push (fun address (cell : Table) => cell.own? name = entry ⟨address⟩ name)
      (fun address => follows.entries ⟨address⟩ name)
      (by rw [← follows.entries, Store.table, Heap.read_of_le (Nat.le_refl _)]; rfl) table.index

theorem Follows.serve (follows : store.Follows parents entry) {request : Request}
    (made : ∀ table ∈ request.tables, table.index < parents.length) :
    (store.serve request).2.Follows (parents ++ request.parents) fun table name =>
      request.leaves table name (entry table name) := by
  rw [← follows.size] at made
  cases request with
  | make parent title =>
      exact follows.addTable (fun table among => made table (Option.mem_toList.mpr among)) title
  | set table name value =>
      rw [Request.parents, List.append_nil]
      exact (amends_setSymbol (made table List.mem_cons_self) value).follows follows
  | get table name =>
      rw [Request.parents, List.append_nil]
      exact follows
  | remove table name =>
      rw [Request.parents, List.append_nil]
      rcases store.serve_remove_cases (made table List.mem_cons_self) name with
        ⟨absent, refused⟩ | ⟨_, after, removed, amends⟩
      · rw [refused]
        refine { follows with entries := fun other wanted => ?_ }
        dsimp only [Request.leaves]
        split
        · rename_i here
          cases here
          exact absent
        · exact follows.entries other wanted
      · rw [removed]
        exact amends.follows follows

theorem Follows.served (follows : store.Follows parents entry) {requests : List Request}
    (proper : Request.Proper parents.length requests) :
    (store.served requests).Follows (parents ++ requests.flatMap Request.parents)
      fun table name => requests.foldl (Request.leaves table name) (entry table name) := by
  induction requests generalizing store parents entry with
  | nil =>
      rw [List.flatMap_nil, List.append_nil]
      exact follows
  | cons request rest ih =>
      have next := ih (follows.serve proper.1) (by simpa using proper.2)
      rwa [List.append_assoc] at next

theorem follows_empty : ({} : Store).Follows [] fun _ _ => none where
  nested _ _ known := by cases known
  size := rfl
  parents _ := rfl
  entries _ _ := rfl

end Store

open Store in
/-- Symbol tables are nested scopes.  After any requests, each about tables made before it, the
tables have the parents they were made with and hold the entries that were last set and not removed.
A name stands for its value in the nearest enclosing table that has one, and for nothing if none
has.  Setting a name matters only to this name and only where it is looked for in the table.
Removing it fails just if the table itself has no entry for it, and then changes nothing; otherwise
the entry is gone, and the name stands for what it stands for in the parent. -/
theorem tables_are_nested_scopes (requests : List Request) (proper : Request.Proper 0 requests) :
    let store := ({} : Store).served requests
    let entry table name := requests.foldl (Request.leaves table name) none
    store.Follows (requests.flatMap Request.parents) entry ∧
    (∀ table name, (∀ value, store.serve (.get table name) = (.ok (some value), store) ↔
        ∃ home, store.Sees name home table ∧ entry home name = some (some value)) ∧
      (store.serve (.get table name) = (.ok none, store) ↔
        ∀ outer, store.Encloses outer table → (entry outer name).join = none)) ∧
    ∀ table name, table.index < store.tables.size →
      (∀ value, ∃ after, store.serve (.set table name value) = (.ok none, after) ∧
        store.Amends after table name (some value) ∧ store.Revalues after table name value) ∧
      (entry table name = none → store.serve (.remove table name) = (.error .missingKey, store)) ∧
      (entry table name ≠ none → ∃ after, store.serve (.remove table name) = (.ok none, after) ∧
        store.Amends after table name none ∧ store.Revalues after table name none ∧
        after.lookup table name = (store.table table).parent.bind (after.lookup · name)) := by
  intro store entry
  have follows : store.Follows (requests.flatMap Request.parents) entry :=
    follows_empty.served proper
  have nested := follows.nested
  refine ⟨follows, fun table name => ⟨fun value => ?_, ?_⟩, fun table name inside => ⟨?_, ?_, ?_⟩⟩
  · simpa [serve, follows.entries] using nested.lookup_eq_some_iff
  · simpa [serve, follows.entries] using nested.lookup_eq_none_iff
  · intro value
    have amends : store.Amends _ table name _ := amends_setSymbol inside value
    exact ⟨_, rfl, amends, amends.revalues nested⟩
  · intro absent
    rw [← follows.entries] at absent
    rcases store.serve_remove_cases inside name with ⟨_, refused⟩ | ⟨present, _⟩
    · exact refused
    · exact absurd absent present
  · intro present
    rw [← follows.entries] at present
    rcases store.serve_remove_cases inside name with ⟨absent, _⟩ | ⟨_, after, removed, amends⟩
    · exact absurd absent present
    · refine ⟨after, removed, amends, amends.revalues nested, ?_⟩
      rw [(amends.nested nested).lookup_eq, amends.entries, amends.parents, if_pos rfl]
      rfl

/-- Three tables, each inside the one before; the middle one has an entry without a value. -/
def threeTables : List Request :=
  [.make none none, .make (some ⟨0⟩) none, .make (some ⟨1⟩) none, .set ⟨0⟩ "x" (some ⟨5⟩),
    .set ⟨1⟩ "x" none]

theorem tables_are_nested_scopes_three : Request.Proper 0 threeTables ∧
    let store := ({} : Store).served threeTables
    store.serve (.get ⟨2⟩ "x") = (.ok (some ⟨5⟩), store) ∧
      store.serve (.remove ⟨2⟩ "x") = (.error .missingKey, store) ∧
      ∃ after, store.serve (.remove ⟨1⟩ "x") = (.ok none, after) ∧
        after.lookup ⟨1⟩ "x" = (store.table ⟨1⟩).parent.bind (after.lookup · "x") := by
  have proper : Request.Proper 0 threeTables := by
    simp [threeTables, Request.Proper, Request.tables, Request.parents]
  obtain ⟨_, gets, changes⟩ := tables_are_nested_scopes threeTables proper
  refine ⟨proper, ?_, (changes ⟨2⟩ "x" (by decide)).2.1 rfl, ?_⟩
  · exact ((gets ⟨2⟩ "x").1 ⟨5⟩).mpr ⟨⟨0⟩, .outward rfl rfl (.outward rfl rfl .here), rfl⟩
  · obtain ⟨after, removed, _, _, found⟩ := (changes ⟨1⟩ "x" (by decide)).2.2 (by decide)
    exact ⟨after, removed, found⟩

end Lingo
