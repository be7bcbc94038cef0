/-
Functions of the language stay in realms that share.

In a realm that shares, all tables are reached and all lists and dictionaries hold only what may be
in hand.  The functions that load scripts stay in it as the others do.
-/

import Lingo.Proofs.Eval.Staying

namespace Lingo

/-- Whatever may be in hand may be put anywhere, and whatever is found anywhere may be in hand. -/
structure Realm.Shares (realm : Realm) : Prop extends realm.Closed, realm.Trades where
  reached : ∀ machine table, realm.reaches machine table
  ownsList : ∀ id, realm.owns (.list id)
  /-- Outside the store all but the global table may change. -/
  aside : ∀ {machine after}, realm.holds machine → after.store = machine.store →
    after.globals = machine.globals → realm.Keeps machine after
  addTable : ∀ {machine} {table : Table}, realm.holds machine →
    (∀ name id, table.own? name = some (some id) → realm.knows machine id) →
      realm.Keeps machine (machine.withStore (machine.store.addTable table).2)
  renew : ∀ {machine}, realm.holds machine → realm.Keeps machine
    { machine.withStore (machine.store.addTable { symbols := startingNames }).2 with
      globals := ⟨machine.store.tables.size⟩ }

theorem Realm.Shares.lends {realm : Realm} (shares : realm.Shares) : realm.Lends where
  toTrades := shares.toTrades
  null := shares.null
  number := shares.number
  text := shares.text
  makeBare holds owns uncalled :=
    shares.addObject holds (Realm.fits_uncalled owns uncalled fun _ none => by cases none)
  addList := shares.addList
  items holds id := shares.items holds (shares.ownsList id)
  print _ holds := shares.aside holds rfl rfl
  read holds _ := shares.aside holds rfl rfl

/-! ### Functions that load scripts -/

namespace Evaluator

open Activity

variable {realm : Realm} (shares : realm.Shares) {self : Evaluator} (loyal : self.Loyal realm)
  {before : Machine} {call : Invocation} (hears : realm.Hears call)

include shares loyal hears

theorem stays_loadAnywhere (path : ObjectId) (moduleName : String) :
    Eval.Offers realm (loadScript self call path moduleName) before :=
  stays_loadScript shares.toClosed loyal hears path moduleName fun _ _ => shares.reached _ _

theorem offers_runScript (path : ObjectId) :
    Eval.Offers realm (runScript self call path) before := by
  have renewed : renewGlobals.Stays realm before fun _ _ => True :=
    stays_of_ends _ rfl fun holds => ⟨shares.renew holds, trivial⟩
  apply Eval.Stays.act renewed
  intro _ reached _ _
  exact stays_loadAnywhere shares loyal hears path ""

theorem offers_importScript {path : ObjectId} (known : realm.knows before path) (name : ObjectId)
    (admits : realm.Admits before call.context)
    (binds : ∀ name, realm.Binds before call.context name) :
    Eval.Offers realm (importScript self call path name) before := by
  apply (Invocation.stays_text hears (some 0) path).bind
  intro _ one keptOne _
  apply (Invocation.stays_text hears (some 1) name).bind
  intro moduleName two keptTwo _
  have kept := keptOne.trans keptTwo
  apply Eval.Stays.act (stays_assign shares.toClosed (admits.keeps kept) ((binds "fn").keeps kept)
    (kept.knows path known))
  intro _ assigned _ _
  have added : (addTable { name := some moduleName }).Stays realm assigned fun _ _ => True :=
    stays_of_ends (assigned.withStore _) rfl fun holds =>
      ⟨shares.addTable holds fun _ _ own => (by cases own), trivial⟩
  apply Eval.Stays.act added
  intro table three _ _
  have listed : (modify fun machine => { machine with modules := machine.modules ++ [table] } :
      Activity Unit).Stays realm three fun _ _ => True :=
    stays_of_ends { three with modules := three.modules ++ [table] } rfl fun holds =>
      ⟨shares.aside holds rfl rfl, trivial⟩
  apply Eval.Stays.act listed
  intro _ reached _ _
  apply Eval.Stays.observe (stays_loadAnywhere shares loyal hears path moduleName)
  intro outcome after _ _
  exact Library.offers_null shares.lends

end Evaluator

open Evaluator Activity in
/-- The functions of the language stay in a realm that shares. -/
theorem Realm.Shares.serves {realm : Realm} (shares : realm.Shares) : realm.Serves := by
  intro self loyal function name arguments given before entrusts spares payload
  have callable : function.payload.isCallable = true := by
    rw [payload]
    rfl
  apply Eval.Stays.act
    (stays_callContext shares.toClosed name entrusts.fits entrusts.places callable)
  intro context entered one ⟨admits, binds⟩
  apply Eval.Stays.look (within_part _)
  intro builtin _ ended
  apply Eval.Stays.ofFault
    (reports_checkCount shares.toClosed entrusts.fits entrusts.places name builtin.parameters
      arguments)
  intro _ _
  have knownEntered := one.knowsAll entrusts.knows
  apply Eval.Stays.act (stays_bindAll shares.toClosed admits binds (takes_zip knownEntered _))
  intro _ bound two _
  have knownBound := two.knowsAll knownEntered
  have hears : realm.Hears { start := function.start, stop := function.stop, context } := by
    intro complaint
    refine shares.complains complaint entrusts.places fun known same => ?_
    cases same
    exact admits.grounds
  unfold builtinAnswer
  split
  · exact offers_runScript shares loyal hears _
  · exact offers_importScript shares loyal hears (knownBound _ List.mem_cons_self) _
      (admits.keeps two) fun name => (binds name).keeps two
  · refine Library.offers_answer shares.lends hears builtin knownBound fun isFact => spares ?_
    have found := Builtin.name_of_ofName? (eq_some_of_part ended)
    rw [payload, ← found, isFact]

end Lingo
