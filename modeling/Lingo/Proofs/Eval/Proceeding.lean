/-
How activities proceed.

An activity proceeds if all that it does to the store are deeds, however it ends, and if what it
comes to satisfies a condition.  The rules below go from the parts of a sequence to the whole;
what is known of a value stays known while deeds are done.
-/

import Lingo.Proofs.Eval.Deeds

namespace Lingo

namespace Activity

variable {α β : Type} {slips : Prop} {before : Machine}

/-- From a machine on, an activity does deeds only, and its result and the machine then satisfy a
condition. -/
structure Proceeds (slips : Prop) (activity : Activity α) (before : Machine)
    (post : α → Machine → Prop) : Prop where
  deeds : ∀ {outcome after}, activity.run.run before = (outcome, after) →
    Deeds slips before.store after.store
  holds : ∀ {a after}, activity.Ends before a after → post a after

variable {post : α → Machine → Prop} {activity : Activity α}

theorem Proceeds.imp {wider : α → Machine → Prop} (proceeds : activity.Proceeds slips before post)
    (entails : ∀ a after, Deeds slips before.store after.store → post a after → wider a after) :
    activity.Proceeds slips before wider where
  deeds := proceeds.deeds
  holds ended := entails _ _ (proceeds.deeds ended) (proceeds.holds ended)

theorem Proceeds.ended (proceeds : activity.Proceeds slips before post) :
    activity.Proceeds slips before fun a after => post a after ∧ activity.Ends before a after where
  deeds := proceeds.deeds
  holds ended := ⟨proceeds.holds ended, ended⟩

theorem proceeds_of_ends {a : α} (ends : activity.Ends before a before) (holds : post a before) :
    activity.Proceeds slips before post where
  deeds ended := by
    have same := ends.symm.trans ended
    cases same
    exact .refl _
  holds ended := by
    have same := ends.symm.trans ended
    cases same
    exact holds

theorem proceeds_pure {a : α} (holds : post a before) :
    (pure a : Activity α).Proceeds slips before post :=
  proceeds_of_ends (ends_pure a before) holds

theorem proceeds_crash (cause : Crash) :
    (crash cause : Activity α).Proceeds slips before post where
  deeds ended := by
    cases ended
    exact .refl _
  holds ended := by cases ended

theorem Proceeds.bind {first : Activity α} {next : α → Activity β} {middle : α → Machine → Prop}
    {post : β → Machine → Prop} (starts : first.Proceeds slips before middle)
    (goesOn : ∀ a reached, Deeds slips before.store reached.store → middle a reached →
      (next a).Proceeds slips reached post) : (first >>= next).Proceeds slips before post := by
  constructor
  · intro outcome after ended
    -- What the first part did stays done, also if it ended abnormally.
    rcases run_bind_cases ended with ⟨_, crashed, _⟩ | ⟨a, reached, first, rest⟩
    · exact starts.deeds crashed
    · have done := starts.deeds first
      exact done.trans ((goesOn a reached done (starts.holds first)).deeds rest)
  · intro b after ended
    rcases run_bind_cases ended with ⟨_, _, same⟩ | ⟨a, reached, first, rest⟩
    · cases same
    · exact (goesOn a reached (starts.deeds first) (starts.holds first)).holds rest

theorem Proceeds.after {first : Activity α} {next : α → Activity β} {a : α}
    {post : β → Machine → Prop} (reads : first.Ends before a before)
    (goesOn : (next a).Proceeds slips before post) :
    (first >>= next).Proceeds slips before post := by
  have reading : first.Proceeds slips before fun b reached => b = a ∧ reached = before :=
    proceeds_of_ends reads ⟨rfl, rfl⟩
  apply reading.bind
  rintro _ _ _ ⟨rfl, rfl⟩
  exact goesOn

theorem proceeds_still (still : activity.Within .still) :
    activity.Proceeds slips before fun a reached =>
      activity.Ends before a before ∧ before = reached where
  deeds ended := by
    cases still.unchanged ended
    exact .refl _
  holds ended := by
    cases still.unchanged ended
    exact ⟨ended, rfl⟩

theorem proceeds_settle {result : Except Crash α} (holds : ∀ a, result = .ok a → post a before) :
    (settle result : Activity α).Proceeds slips before post := by
  cases result with
  | ok a => exact proceeds_pure (holds a rfl)
  | error cause => exact proceeds_crash cause

theorem proceeds_part {part? : Option α} (holds : ∀ a, part? = some a → post a before) :
    (part part? : Activity α).Proceeds slips before post := by
  cases part? with
  | some a => exact proceeds_pure (holds a rfl)
  | none => exact proceeds_crash .missingPart

theorem proceeds_objectAt {slot : Slot} {post : ObjectId → Machine → Prop}
    (holds : ∀ id, slot = .object id → post id before) :
    (objectAt slot).Proceeds slips before post := by
  cases slot with
  | object id => exact proceeds_pure (holds id rfl)
  | bare held => exact proceeds_crash .missingPart
  | nothing => exact proceeds_crash .missingPart

/-! ### Changes -/

theorem proceeds_of_deed {a : α} {reached : Machine} (ends : activity.Ends before a reached)
    (deed : Deed slips before.store reached.store) (holds : post a reached) :
    activity.Proceeds slips before post where
  deeds ended := by
    have same := ends.symm.trans ended
    cases same
    exact .single deed
  holds ended := by
    have same := ends.symm.trans ended
    cases same
    exact holds

theorem proceeds_changeStore {change : Store → Store}
    (deed : Deed slips before.store (change before.store)) :
    (changeStore change).Proceeds slips before fun _ _ => True := by
  have ends : (changeStore change).Ends before ()
      { before with store := change before.store } := rfl
  exact proceeds_of_deed ends deed trivial

theorem proceeds_aside {a : α} {reached : Machine} (ends : activity.Ends before a reached)
    (objects : reached.store.objects = before.store.objects)
    (lists : reached.store.lists = before.store.lists)
    (dicts : reached.store.dicts = before.store.dicts) :
    activity.Proceeds slips before fun _ _ => True :=
  proceeds_of_deed ends (.aside objects lists dicts) trivial

abbrev Behaves (slips : Prop) (activity : Activity α) (before : Machine) : Prop :=
  activity.Proceeds slips before fun _ _ => True

theorem Proceeds.behaves (proceeds : activity.Proceeds slips before post) :
    activity.Behaves slips before :=
  proceeds.imp fun _ _ _ _ => trivial

/-! #### Objects -/

theorem proceeds_addObject {object : Object} (sane : object.payload.Sane slips before.store) :
    (addObject object).Proceeds slips before fun id after =>
      (after.store.object id).payload = object.payload :=
  proceeds_of_deed (ends_addObject object before) (.make sane)
    (congrArg Object.payload (before.store.object_addObject object))

theorem proceeds_make {payload : Payload} (sane : payload.Sane slips before.store) (span : Span)
    (context : Context) :
    (make payload span context).Proceeds slips before fun id after =>
      (after.store.object id).payload = payload :=
  proceeds_addObject sane

theorem proceeds_makeBare {payload : Payload} (sane : payload.Sane slips before.store) :
    (makeBare payload).Proceeds slips before fun id after =>
      (after.store.object id).payload = payload :=
  proceeds_addObject sane

theorem proceeds_copy (id : ObjectId) :
    (copy id).Proceeds slips before fun copied after => after.store.IsValue copied := by
  apply Proceeds.after (ends_object id before)
  have added : before.store.IsValue id → (addObject (before.store.object id)).Proceeds slips before
      fun copied after => after.store.IsValue copied := by
    intro value
    refine proceeds_of_deed (ends_addObject _ before) (.copy value rfl) ?_
    have same := before.store.object_addObject (before.store.object id)
    unfold Store.IsValue
    rw [same]
    exact value
  cases known : (before.store.object id).payload with
  | plain => exact proceeds_crash _
  | bodiless name => exact proceeds_crash _
  | _ => exact added (congrArg Payload.isKind known)

theorem proceeds_setPlace (id : ObjectId) (span : Span) : (setPlace id span).Behaves slips before :=
  proceeds_changeStore (.claim fun _ => rfl)

theorem proceeds_setContext (id : ObjectId) (context : Context) :
    (setContext id context).Behaves slips before :=
  proceeds_changeStore (.claim fun _ => rfl)

/-! #### Lists and dictionaries -/

theorem proceeds_addList {items : Array Slot}
    (fit : ∀ slot ∈ items, before.store.Fits slips slot) : (addList items).Behaves slips before :=
  proceeds_of_deed (ends_addList items before) (.addList fit) trivial

theorem proceeds_makeList {items : Array Slot}
    (fit : ∀ slot ∈ items, before.store.Fits slips slot) :
    (makeList items).Behaves slips before := by
  apply (proceeds_addList fit).bind
  intro id reached _ _
  have sane : (Payload.list id).Sane slips reached.store := trivial
  exact (proceeds_makeBare sane).behaves

theorem proceeds_addDict {entries : Array (ObjectId × Slot)}
    (distinct : before.store.Distinct (entries.toList.map Prod.fst)) :
    (addDict entries).Proceeds slips before fun id after =>
      id.index < after.store.dicts.size := by
  have ends : (addDict entries).Ends before ⟨before.store.dicts.size⟩
      { before with store := (before.store.addDict entries).2 } := rfl
  have grown := before.store.dicts.size_push entries
  exact proceeds_of_deed ends (.addDict distinct)
    (Nat.lt_of_lt_of_eq (Nat.lt_succ_self _) grown.symm)

/-! #### Everything else -/

theorem proceeds_addDefaults (values : Array Slot) : (addDefaults values).Behaves slips before := by
  have ends : (addDefaults values).Ends before ⟨before.store.defaults.size⟩
      { before with store := (before.store.addDefaults values).2 } := rfl
  exact proceeds_aside ends rfl rfl rfl

theorem proceeds_addTable (table : Table) : (addTable table).Behaves slips before := by
  have ends : (addTable table).Ends before ⟨before.store.tables.size⟩
      { before with store := (before.store.addTable table).2 } := rfl
  exact proceeds_aside ends rfl rfl rfl

theorem proceeds_assign (context : Context) (name : String) (value : ObjectId) :
    (assign context name value).Behaves slips before := by
  apply (proceeds_still (within_tableOf context)).bind
  intro table reached _ _
  exact proceeds_changeStore (.aside rfl rfl rfl)

theorem proceeds_modify {change : Machine → Machine} (same : (change before).store = before.store) :
    (modify change : Activity Unit).Behaves slips before := by
  have ends : (modify change : Activity Unit).Ends before () (change before) := rfl
  exact proceeds_aside ends (by rw [same]) (by rw [same]) (by rw [same])

theorem proceeds_print (line : String) : (print line).Behaves slips before := by
  apply (proceeds_modify rfl).bind
  intro _ reached _ _
  exact proceeds_modify rfl

theorem proceeds_readLine : readLine.Behaves slips before := by
  apply Proceeds.after (ends_get before)
  cases before.input with
  | nil => exact proceeds_crash _
  | cons line rest =>
      apply (proceeds_modify rfl).bind
      intro _ reached _ _
      exact proceeds_pure trivial

end Activity

/-! ### Evaluations -/

def Interrupt.Carries (store : Store) : Interrupt → Prop
  | .returned id => store.IsValue id
  | _ => True

namespace Eval

open Activity

variable {α β : Type} {slips : Prop} {before : Machine} {next : α → Eval β} {activity : Activity α}
  {middle : α → Machine → Prop}

/-- The value and the machine then satisfy a condition, or the interruption carries a value if
anything. -/
def Fulfils (post : α → Machine → Prop) : Except Interrupt α → Machine → Prop
  | .ok a, after => post a after
  | .error interrupt, after => interrupt.Carries after.store

/-- From a machine on, an evaluation does deeds only, and its value and the machine then satisfy a
condition, unless it is interrupted. -/
def Proceeds (slips : Prop) (evaluation : Eval α) (before : Machine)
    (post : α → Machine → Prop) : Prop :=
  Activity.Proceeds slips evaluation.run before (Fulfils post)

abbrev Behaves (slips : Prop) (evaluation : Eval α) (before : Machine) : Prop :=
  evaluation.Proceeds slips before fun _ _ => True

variable {post : α → Machine → Prop} {evaluation : Eval α}

theorem Proceeds.imp {wider : α → Machine → Prop}
    (proceeds : evaluation.Proceeds slips before post)
    (entails : ∀ a after, Deeds slips before.store after.store → post a after → wider a after) :
    evaluation.Proceeds slips before wider := by
  apply Activity.Proceeds.imp proceeds
  intro outcome after done held
  cases outcome with
  | ok a => exact entails a after done held
  | error interrupt => exact held

theorem Proceeds.behaves (proceeds : evaluation.Proceeds slips before post) :
    evaluation.Behaves slips before :=
  proceeds.imp fun _ _ _ _ => trivial

theorem proceeds_pure {a : α} (holds : post a before) :
    (pure a : Eval α).Proceeds slips before post :=
  Activity.proceeds_pure holds

theorem proceeds_throw {interrupt : Interrupt} (carries : interrupt.Carries before.store) :
    (throw interrupt : Eval α).Proceeds slips before post :=
  Activity.proceeds_pure carries

theorem proceeds_fail (fault : Fault) : (fail fault : Eval α).Proceeds slips before post :=
  proceeds_throw trivial

theorem proceeds_ofFault {result : Except Fault α} (holds : ∀ a, result = .ok a → post a before) :
    (ofFault result).Proceeds slips before post := by
  cases result with
  | ok a => exact proceeds_pure (holds a rfl)
  | error fault => exact proceeds_fail fault

theorem Proceeds.lift (proceeds : activity.Proceeds slips before post) :
    Proceeds slips (liftM activity) before post := by
  apply Activity.Proceeds.bind proceeds
  intro a reached _ held
  exact Activity.proceeds_pure held

theorem proceeds_crash (cause : Crash) :
    Proceeds slips (liftM (crash cause : Activity α)) before post :=
  .lift (Activity.proceeds_crash cause)

theorem Proceeds.ended (proceeds : evaluation.Proceeds slips before post) :
    evaluation.Proceeds slips before fun a after =>
      post a after ∧ evaluation.Ends before (.ok a) after where
  deeds := Activity.Proceeds.deeds proceeds
  holds {outcome after} ended := by
    have held := Activity.Proceeds.holds proceeds ended
    cases outcome with
    | ok a => exact ⟨held, ended⟩
    | error interrupt => exact held

theorem Proceeds.result (proceeds : evaluation.Proceeds slips before post) :
    Deeds slips before.store (evaluation.result before).2.store :=
  Activity.Proceeds.deeds proceeds rfl

variable {post : β → Machine → Prop}

theorem Proceeds.observe {first : Eval α} {next : Except Interrupt α → Eval β}
    (starts : first.Proceeds slips before middle)
    (goesOn : ∀ outcome reached, Deeds slips before.store reached.store →
      Fulfils middle outcome reached → (next outcome).Proceeds slips reached post) :
    (first.observe >>= next).Proceeds slips before post := by
  have opened : (first.observe >>= next).run =
      first.run >>= fun outcome => (next outcome).run := by
    unfold Eval.observe
    simp only [ExceptT.run_bind, ExceptT.run_lift, bind_map_left]
  unfold Proceeds
  rw [opened]
  exact Activity.Proceeds.bind starts goesOn

theorem Proceeds.bind {first : Eval α}
    (starts : first.Proceeds slips before middle)
    (goesOn : ∀ a reached, Deeds slips before.store reached.store → middle a reached →
      (next a).Proceeds slips reached post) : (first >>= next).Proceeds slips before post := by
  rw [bind_eq_observe]
  apply starts.observe
  intro outcome reached done held
  cases outcome with
  | ok a => exact goesOn a reached done held
  | error interrupt => exact proceeds_throw held

theorem Proceeds.after {a : α} (reads : activity.Ends before a before)
    (goesOn : (next a).Proceeds slips before post) :
    Proceeds slips (liftM activity >>= next) before post := by
  have reading : activity.Proceeds slips before fun b reached => b = a ∧ reached = before :=
    proceeds_of_ends reads ⟨rfl, rfl⟩
  apply (Proceeds.lift reading).bind
  rintro _ _ _ ⟨rfl, rfl⟩
  exact goesOn

theorem Proceeds.look {known : α → Prop}
    (looks : activity.Proceeds slips before fun a reached => known a ∧ before = reached)
    (goesOn : ∀ a, known a → (next a).Proceeds slips before post) :
    Proceeds slips (liftM activity >>= next) before post := by
  apply (Proceeds.lift looks).bind
  rintro a _ _ ⟨holds, rfl⟩
  exact goesOn a holds

theorem Proceeds.still (within : activity.Within .still)
    (goesOn : ∀ a, activity.Ends before a before → (next a).Proceeds slips before post) :
    Proceeds slips (liftM activity >>= next) before post :=
  .look (proceeds_still within) goesOn

theorem after_settle {result : Except Crash α}
    (goesOn : ∀ a, result = .ok a → (next a).Proceeds slips before post) :
    ((settle result : Eval α) >>= next).Proceeds slips before post :=
  .look (Activity.proceeds_settle fun _ same => ⟨same, rfl⟩) goesOn

theorem after_part {part? : Option α}
    (goesOn : ∀ a, part? = some a → (next a).Proceeds slips before post) :
    Proceeds slips (liftM (part part? : Activity α) >>= next) before post :=
  .look (Activity.proceeds_part fun _ same => ⟨same, rfl⟩) goesOn

theorem after_scalar {id : ObjectId} {next : Scalar → Eval β}
    (goesOn : ∀ held, before.store.scalar? id = some held →
      (next held).Proceeds slips before post) :
    Proceeds slips (liftM (scalar id) >>= next) before post :=
  .look (.after (ends_store before) (Activity.proceeds_part fun _ same => ⟨same, rfl⟩)) goesOn

theorem after_objectAt {slot : Slot} {next : ObjectId → Eval β}
    (goesOn : ∀ id, slot = .object id → (next id).Proceeds slips before post) :
    Proceeds slips (liftM (objectAt slot) >>= next) before post :=
  .look (Activity.proceeds_objectAt fun _ same => ⟨same, rfl⟩) goesOn

theorem Proceeds.act (starts : activity.Proceeds slips before middle)
    (goesOn : ∀ a reached, Deeds slips before.store reached.store → middle a reached →
      (next a).Proceeds slips reached post) :
    Proceeds slips (liftM activity >>= next) before post :=
  (Proceeds.lift starts).bind goesOn

end Eval

end Lingo
