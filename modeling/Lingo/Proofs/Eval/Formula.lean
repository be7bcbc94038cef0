/-
The values of formulas.

A formula is evaluated from left to right, and both operands of an operator are always
evaluated.  Running its text yields a list with its value, or the report of the first
division by zero.
-/

import Lingo.Proofs.Eval.Running
import Lingo.Proofs.Grammar.Formula

namespace Lingo

attribute [local instance (high)] instPowNat

namespace Formula

variable {op : BinaryOp} {whole : op ≠ .div} {script : Script} {value : Int}

inductive Stuck where
  | zeroDivisor
  | negativeExponent
deriving DecidableEq, Repr

def truth (holds : Prop) [Decidable holds] : Int :=
  if holds then 1 else 0

def combine : (op : BinaryOp) → op ≠ .div → Int → Int → Except Stuck Int
  | .add, _, a, b => .ok (a + b)
  | .sub, _, a, b => .ok (a - b)
  | .mul, _, a, b => .ok (a * b)
  | .div, whole, _, _ => absurd rfl whole
  | .floorDiv, _, a, b => if b = 0 then .error .zeroDivisor else .ok (a.fdiv b)
  | .mod, _, a, b => if b = 0 then .error .zeroDivisor else .ok (a.fmod b)
  | .pow, _, a, b => if b < 0 then .error .negativeExponent else .ok (a ^ b.toNat)
  | .eq, _, a, b => .ok (truth (a = b))
  | .ne, _, a, b => .ok (truth (a ≠ b))
  | .lt, _, a, b => .ok (truth (a < b))
  | .gt, _, a, b => .ok (truth (b < a))
  | .le, _, a, b => .ok (truth (a ≤ b))
  | .ge, _, a, b => .ok (truth (b ≤ a))
  | .both, _, a, b => .ok (if a = 0 then 0 else b)
  | .either, _, a, b => .ok (if a = 0 then b else a)

def prefixed : UnaryOp → Int → Int
  | .plus, a => a
  | .minus, a => -a
  | .negation, a => truth (a = 0)

/-- The value of a formula, or what the evaluation from left to right meets first. -/
def meaning : Formula → Except Stuck Int
  | literal value _ => .ok value
  | unary op operand => do
      let a ← operand.meaning
      return prefixed op a
  | binary op whole left right => do
      let a ← left.meaning
      let b ← right.meaning
      combine op whole a b

def height : Formula → Nat
  | literal _ _ => 1
  | unary _ operand => operand.height + 1
  | binary _ _ left right => max left.height right.height + 1

/-! ### Operators on integers -/

theorem ofBool_decide (holds : Prop) [Decidable holds] :
    Scalar.ofBool (decide holds) = .int (truth holds) := by
  unfold Scalar.ofBool truth
  by_cases known : holds
  · rw [if_pos known, decide_eq_true known]
    rfl
  · rw [if_neg known, decide_eq_false known]
    rfl

theorem compare_cases (a b : Int) :
    a < b ∧ compare a b = .lt ∨ a = b ∧ compare a b = .eq ∨ b < a ∧ compare a b = .gt := by
  rcases Int.lt_trichotomy a b with less | same | greater
  · exact .inl ⟨less, Int.compare_eq_lt.mpr less⟩
  · exact .inr (.inl ⟨same, Int.compare_eq_eq.mpr same⟩)
  · exact .inr (.inr ⟨greater, Int.compare_eq_gt.mpr greater⟩)

theorem answer_compare {a b : Int} (answer : Ordering → Bool) {holds : Prop} [Decidable holds]
    (less : a < b → (answer .lt = true ↔ holds)) (same : a = b → (answer .eq = true ↔ holds))
    (greater : b < a → (answer .gt = true ↔ holds)) : answer (compare a b) = decide holds := by
  rw [Bool.eq_iff_iff, decide_eq_true_iff]
  rcases compare_cases a b with ⟨stand, ordered⟩ | ⟨stand, ordered⟩ | ⟨stand, ordered⟩
  · rw [ordered]
    exact less stand
  · rw [ordered]
    exact same stand
  · rw [ordered]
    exact greater stand

theorem lt_int (a b : Int) : Scalar.lt (.int a) (.int b) = .ok (decide (a < b)) := by
  apply congrArg Except.ok
  apply answer_compare fun order => some order == some .lt
  · exact fun less => iff_of_true rfl less
  · exact fun same => iff_of_false (by decide) (by omega)
  · exact fun greater => iff_of_false (by decide) (by omega)

theorem gt_int (a b : Int) : Scalar.gt (.int a) (.int b) = .ok (decide (b < a)) := by
  apply congrArg Except.ok
  apply answer_compare fun order => some order == some .gt
  · exact fun less => iff_of_false (by decide) (by omega)
  · exact fun same => iff_of_false (by decide) (by omega)
  · exact fun greater => iff_of_true rfl greater

theorem le_int (a b : Int) : Scalar.le (.int a) (.int b) = .ok (decide (a ≤ b)) := by
  apply congrArg Except.ok
  apply answer_compare fun order => some order == some .lt || some order == some .eq
  · exact fun less => iff_of_true rfl (Int.le_of_lt less)
  · exact fun same => iff_of_true rfl (Int.le_of_eq same)
  · exact fun greater => iff_of_false (by decide) (by omega)

theorem ge_int (a b : Int) : Scalar.ge (.int a) (.int b) = .ok (decide (b ≤ a)) := by
  apply congrArg Except.ok
  apply answer_compare fun order => some order == some .gt || some order == some .eq
  · exact fun less => iff_of_false (by decide) (by omega)
  · exact fun same => iff_of_true rfl (Int.le_of_eq same.symm)
  · exact fun greater => iff_of_true rfl (Int.le_of_lt greater)

theorem scalars_of_combine {a b : Int} (combined : combine op whole a b = .ok value) :
    Operation.scalars op (.int a) (.int b) = .ok (.int value) := by
  cases op with
  | div => exact absurd rfl whole
  | floorDiv =>
      simp only [combine] at combined
      split at combined
      · cases combined
      · cases combined
        rfl
  | mod =>
      simp only [combine] at combined
      split at combined
      · cases combined
      · cases combined
        rfl
  | pow =>
      simp only [combine] at combined
      split at combined
      · cases combined
      · rename_i natural
        cases combined
        have isNatural : 0 ≤ b := by omega
        change (if 0 ≤ b then pure (Scalar.int (Scalar.intPow a b.toNat)) else _) = _
        rw [if_pos isNatural, Scalar.intPow_eq_pow]
        rfl
  | both =>
      cases combined
      by_cases zero : a = 0 <;>
        simp [Operation.scalars, Scalar.both, Scalar.isTruthy, zero, Scalar.toInt]
  | either =>
      cases combined
      by_cases zero : a = 0 <;>
        simp [Operation.scalars, Scalar.either, Scalar.isTruthy, zero, Scalar.toInt]
  | eq =>
      cases combined
      rw [← ofBool_decide]
      rfl
  | ne =>
      cases combined
      rw [← ofBool_decide, decide_not]
      rfl
  | lt =>
      cases combined
      rw [← ofBool_decide, Operation.scalars, lt_int]
      rfl
  | gt =>
      cases combined
      rw [← ofBool_decide, Operation.scalars, gt_int]
      rfl
  | le =>
      cases combined
      rw [← ofBool_decide, Operation.scalars, le_int]
      rfl
  | ge =>
      cases combined
      rw [← ofBool_decide, Operation.scalars, ge_int]
      rfl
  | add =>
      cases combined
      rfl
  | sub =>
      cases combined
      rfl
  | mul =>
      cases combined
      rfl

theorem combine_eq_zeroDivisor_iff {a b : Int} :
    combine op whole a b = .error .zeroDivisor ↔ Operation.divides op ∧ b = 0 := by
  cases op with
  | div => exact absurd rfl whole
  | pow => by_cases negative : b < 0 <;> simp [combine, Operation.divides, negative]
  | _ => simp [combine, Operation.divides]

theorem numbers_of_combine {a b : Int} (combined : combine op whole a b = .ok value)
    (left right : Object) :
    Operation.numbers op left right (.int a) (.int b) =
      .ok (.ok (.fresh (.number (.int value)))) := by
  have defined : ¬(Operation.divides op ∧ (Scalar.int b).isZero) := by
    intro ⟨divides, zero⟩
    have stuck : combine op whole a b = .error .zeroDivisor :=
      combine_eq_zeroDivisor_iff.mpr ⟨divides, eq_of_beq zero⟩
    rw [combined] at stuck
    cases stuck
  unfold Operation.numbers
  rw [if_neg defined, scalars_of_combine combined]
  rfl

/-! ### Numbers on the machine -/

def claimed (value : Int) (span : Span) (context : Context) : Object :=
  { payload := .number (.int value), start := some span.start, stop := some span.stop,
    context := some context }

/-- A store came to hold a new number that a place in a script claims. -/
structure Yields (before after : Store) (context : Context) (id : ObjectId) (value : Int) :
    Prop where
  extension : before.Enlarges after
  fresh : before.objects.size ≤ id.index
  inside : id.index < after.objects.size
  holds : ∃ span, after.object id = claimed value span context

theorem Yields.after {before middle after : Store} {context : Context} {id : ObjectId}
    (yields : Yields middle after context id value) (extension : before.Enlarges middle) :
    Yields before after context id value where
  extension := extension.trans yields.extension
  fresh := Nat.le_trans extension.extension.grows yields.fresh
  inside := yields.inside
  holds := yields.holds

/-- How an evaluation answers to the meaning of a formula. -/
def Answers (evaluation : Eval ObjectId) (context : Context) (before : Machine) :
    Except Stuck Int → Prop
  | .ok value =>
      ∃ id after, evaluation.Ends before (.ok id) after ∧
        Yields before.store after.store context id value
  | .error .zeroDivisor =>
      ∃ start stop after, evaluation.Ends before
        (.error (.failed (Operation.fault .divisionByZero (some start) (some stop) (some context))))
        after
  | .error .negativeExponent => True

theorem Answers.preceded {α : Type} {first : Eval α} {next : α → Eval ObjectId} {a : α}
    {context : Context} {before middle : Machine} {result : Except Stuck Int}
    (starts : first.Ends before (.ok a) middle) (extension : before.store.Enlarges middle.store)
    (answers : Answers (next a) context middle result) :
    Answers (first >>= next) context before result := by
  cases result with
  | ok value =>
      obtain ⟨id, after, ends, yields⟩ := answers
      exact ⟨id, after, starts.bind ends, yields.after extension⟩
  | error stuck =>
      cases stuck with
      | zeroDivisor =>
          obtain ⟨start, stop, after, ends⟩ := answers
          exact ⟨start, stop, after, starts.bind ends⟩
      | negativeExponent => trivial

theorem Answers.stuck {evaluation : Eval ObjectId} {next : ObjectId → Eval ObjectId}
    {context : Context} {before : Machine} {stuck : Stuck}
    (answers : Answers evaluation context before (.error stuck)) :
    Answers (evaluation >>= next) context before (.error stuck) := by
  cases stuck with
  | zeroDivisor =>
      obtain ⟨start, stop, after, ends⟩ := answers
      exact ⟨start, stop, after, ends.interrupted⟩
  | negativeExponent => trivial

theorem answers_make (value : Int) (span : Span) (context : Context) (before : Machine) :
    Answers (liftM (Activity.make (.number (.int value)) span context)) context before
      (.ok value) := by
  refine ⟨_, _, Eval.Ends.lift (Activity.ends_addObject _ before), ?_⟩
  constructor
  · exact before.store.enlarges_addObject _
  · exact Nat.le_refl _
  · rw [Store.size_addObject]
    exact Nat.lt_succ_self _
  · exact ⟨span, before.store.object_addObject _⟩

theorem claim_yields {before : Store} {middle : Machine} (extension : before.Enlarges middle.store)
    {id : ObjectId} (fresh : before.objects.size ≤ id.index)
    (inside : id.index < middle.store.objects.size)
    (payload : (middle.store.object id).payload = .number (.int value)) {context : Context}
    (owner : (middle.store.object id).context = some context) (span : Span) :
    ∃ after, (Evaluator.claim span (.object id)).Ends middle (.ok id) after ∧
      Yields before after.store context id value := by
  refine ⟨_, rfl, ?_⟩
  constructor
  · exact extension.modifyObject fresh _
  · exact fresh
  · rw [Store.size_modifyObject]
    exact inside
  · refine ⟨span, ?_⟩
    rw [Store.object_modifyObject _ _ inside, claimed, ← payload, ← owner]

def withNumber (machine : Machine) (value : Int) (context : Context) : Machine :=
  { machine with
    store := (machine.store.addObject
      { payload := .number (.int value), context := some context }).2 }

def Makes (evaluation : Eval Slot) (before : Machine) (value : Int) (context : Context) : Prop :=
  evaluation.Ends before (.ok (.object ⟨before.store.objects.size⟩))
    (withNumber before value context)

theorem makes_yield (value : Int) (context : Context) (before : Machine) :
    Makes (liftM (Evaluator.yieldValue (some context) (.fresh (.number (.int value))))) before
      value context :=
  Eval.Ends.lift ((Activity.ends_addObject _ before).bind rfl)

theorem Makes.claim {evaluation : Eval Slot} {before : Machine} {context : Context}
    (makes : Makes evaluation before value context) (span : Span) :
    Answers (evaluation >>= Evaluator.claim span) context before (.ok value) := by
  have extension : before.store.Enlarges (withNumber before value context).store :=
    before.store.enlarges_addObject _
  have inside : before.store.objects.size < (withNumber before value context).store.objects.size :=
    before.store.objects.lt_size_push _
  have made : (withNumber before value context).store.object ⟨before.store.objects.size⟩ =
      { payload := .number (.int value), context := some context } :=
    before.store.object_addObject _
  obtain ⟨after, ends, yields⟩ := claim_yields extension (Nat.le_refl _) inside
    (congrArg Object.payload made) (congrArg Object.context made) span
  exact ⟨_, after, makes.bind ends, yields⟩

theorem binary_numbers {store : Store} {op : BinaryOp} {left right : Object} {a b : Scalar}
    (leftPayload : left.payload = .number a) (rightPayload : right.payload = .number b) :
    Operation.binary store op left right = Operation.numbers op left right a b := by
  unfold Operation.binary
  rw [leftPayload, rightPayload]

theorem makes_operate {a b : Int} (combined : combine op whole a b = .ok value)
    {left right : Object} (leftPayload : left.payload = .number (.int a))
    (rightPayload : right.payload = .number (.int b)) {context : Context}
    (owner : left.context = some context) (before : Machine) :
    Makes (Evaluator.operate op left right) before value context := by
  have computed : Operation.binary before.store op left right =
      .ok (.ok (.fresh (.number (.int value)))) := by
    rw [binary_numbers leftPayload rightPayload]
    exact numbers_of_combine combined left right
  unfold Evaluator.operate
  apply Eval.Ends.bind (Eval.Ends.lift (Activity.ends_store before))
  apply Eval.Ends.bind (Eval.ends_settle computed before)
  rw [owner]
  exact makes_yield value context before

theorem operate_fails {a b : Int} (stuck : combine op whole a b = .error .zeroDivisor)
    {left right : Object} (leftPayload : left.payload = .number (.int a))
    (rightPayload : right.payload = .number (.int b)) (before : Machine) :
    (Evaluator.operate op left right).Ends before
      (.error (.failed (Operation.fault .divisionByZero right.start right.stop left.context)))
      before := by
  have computed : Operation.binary before.store op left right =
      .ok (.error (Operation.fault .divisionByZero right.start right.stop left.context)) := by
    obtain ⟨divides, zero⟩ := combine_eq_zeroDivisor_iff.mp stuck
    rw [binary_numbers leftPayload rightPayload, Operation.numbers,
      if_pos ⟨divides, beq_iff_eq.mpr zero⟩]
  unfold Evaluator.operate
  apply Eval.Ends.bind (Eval.Ends.lift (Activity.ends_store before))
  apply Eval.Ends.bind (Eval.ends_settle computed before)
  exact Eval.Ends.interrupted rfl

/-! ### Evaluation -/

variable {limits : Limits}

theorem script_of_literal {value : Nat} {short}
    (written : script.bare = (literal value short).tree) :
    ∃ span, script = .number span (.int value) := by
  cases script <;> cases written
  exact ⟨_, rfl⟩

theorem script_of_unary {op : UnaryOp} {operand : Formula}
    (written : script.bare = (unary op operand).tree) :
    ∃ span inner, script = .unary span op inner ∧ inner.bare = operand.tree := by
  cases script with
  | unary span known inner =>
      injection written with _ sameOp same
      exact ⟨span, inner, by rw [sameOp], same⟩
  | _ => cases written

theorem script_of_binary {left right : Formula}
    (written : script.bare = (binary op whole left right).tree) :
    ∃ span first second, script = .binary span op first second ∧ first.bare = left.tree ∧
      second.bare = right.tree := by
  cases script with
  | binary span known first second =>
      injection written with _ sameOp sameLeft sameRight
      exact ⟨span, first, second, by rw [sameOp], sameLeft, sameRight⟩
  | _ => cases written

variable {self : Evaluator} {context : Context} {before : Machine}

theorem answers_unary {operand : Script} {result : Except Stuck Int}
    (answers : Answers (self operand context) context before result) (op : UnaryOp) (span : Span) :
    Answers (Evaluator.unaryValue self span op operand context) context before
      (do return prefixed op (← result)) := by
  cases result with
  | error stuck => exact answers.stuck
  | ok a =>
      obtain ⟨id, middle, ends, yields⟩ := answers
      obtain ⟨place, holds⟩ := yields.holds
      have payload := congrArg Object.payload holds
      have owner := congrArg Object.context holds
      have loaded := Eval.Ends.lift (Activity.ends_object id middle)
      cases op with
      | plus =>
          obtain ⟨after, claims, claimed⟩ :=
            claim_yields yields.extension yields.fresh yields.inside payload owner span
          exact ⟨id, after, ends.bind claims, claimed⟩
      | minus =>
          have value : combine .mul (by decide) a (-1) = .ok (-a) := by
            rw [combine, Int.mul_neg_one]
          apply Answers.preceded ends yields.extension
          apply Answers.preceded loaded (Store.Enlarges.refl _)
          exact (makes_operate value payload rfl owner middle).claim span
      | negation =>
          have value : Operation.negation (middle.store.object id) =
              .ok (.fresh (.number (.int (truth (a = 0))))) := by
            rw [holds, ← ofBool_decide]
            rfl
          apply Answers.preceded ends yields.extension
          apply Answers.preceded loaded (Store.Enlarges.refl _)
          rw [value, owner]
          exact (makes_yield (truth (a = 0)) context middle).claim span

theorem answers_binary {left right : Script} {leftResult rightResult : Except Stuck Int}
    (first : Answers (self left context) context before leftResult)
    (second : ∀ middle, Answers (self right context) context middle rightResult)
    (op : BinaryOp) (whole : op ≠ .div) (span : Span) :
    Answers (Evaluator.binaryValue self span op left right context) context before
      (do combine op whole (← leftResult) (← rightResult)) := by
  cases leftResult with
  | error stuck => exact first.stuck
  | ok a =>
      obtain ⟨id, middle, ends, yields⟩ := first
      obtain ⟨place, holds⟩ := yields.holds
      apply Answers.preceded ends yields.extension
      cases rightResult with
      | error stuck => exact (second middle).stuck
      | ok b =>
          obtain ⟨otherId, later, otherEnds, otherYields⟩ := second middle
          obtain ⟨otherPlace, otherHolds⟩ := otherYields.holds
          -- The left number is still there after the right operand.
          have kept : later.store.object id = claimed a place context := by
            rw [otherYields.extension.extension.keeps id yields.inside, holds]
          apply Answers.preceded otherEnds otherYields.extension
          apply Answers.preceded (Eval.Ends.lift (Activity.ends_object id later))
            (Store.Enlarges.refl _)
          apply Answers.preceded (Eval.Ends.lift (Activity.ends_object otherId later))
            (Store.Enlarges.refl _)
          rw [kept, otherHolds]
          change Answers _ context later (combine op whole a b)
          cases combined : combine op whole a b with
          | ok value => exact (makes_operate combined rfl rfl rfl later).claim span
          | error stuck =>
              cases stuck with
              | zeroDivisor =>
                  exact ⟨_, _, later, (operate_fails combined rfl rfl later).interrupted⟩
              | negativeExponent => trivial

theorem answers_meaning (formula : Formula) (written : script.bare = formula.tree) {depth : Nat}
    (deep : formula.height ≤ depth) (context : Context) (before : Machine) :
    Answers (Evaluator.atDepth limits depth script context) context before formula.meaning := by
  induction formula generalizing script depth before with
  | literal value short =>
      obtain ⟨span, rfl⟩ := script_of_literal written
      obtain ⟨below, rfl⟩ := Nat.exists_eq_add_of_le' deep
      exact answers_make value span context before
  | unary op operand ih =>
      obtain ⟨span, inner, rfl, same⟩ := script_of_unary written
      obtain ⟨below, rfl⟩ := Nat.exists_eq_add_of_le' (Nat.le_trans (Nat.le_add_left 1 _) deep)
      have fits : operand.height ≤ below := Nat.le_of_succ_le_succ deep
      exact answers_unary (ih same fits before) op span
  | binary op whole left right first second =>
      obtain ⟨span, inner, other, rfl, sameLeft, sameRight⟩ := script_of_binary written
      obtain ⟨below, rfl⟩ := Nat.exists_eq_add_of_le' (Nat.le_trans (Nat.le_add_left 1 _) deep)
      have fits : max left.height right.height ≤ below := Nat.le_of_succ_le_succ deep
      have fitsLeft : left.height ≤ below := Nat.le_trans (Nat.le_max_left _ _) fits
      have fitsRight : right.height ≤ below := Nat.le_trans (Nat.le_max_right _ _) fits
      exact answers_binary (first sameLeft fitsLeft before)
        (fun middle => second sameRight fitsRight middle) op whole span

/-! ### Running a text -/

def HoldsOne (store : Store) (id : ObjectId) (value : Int) : Prop :=
  ∃ items number, (store.object id).payload = .list items ∧
    store.items items = #[.object number] ∧ (store.object number).payload = .number (.int value)

theorem listValue_holds {item : Script} {middle : Machine} {id : ObjectId}
    (ends : (self item context).Ends before (.ok id) middle)
    (yields : Yields before.store middle.store context id value) (span : Span) :
    ∃ list after, (Evaluator.listValue self span [item] context).Ends before (.ok list) after ∧
      HoldsOne after.store list value := by
  have collected : ([item].mapM fun item => self item context).Ends before (.ok [id]) middle := by
    rw [List.mapM_cons]
    exact ends.bind rfl
  refine ⟨_, _, Evaluator.ends_listValue collected span, ⟨middle.store.lists.size⟩, id, ?_, ?_, ?_⟩
  · exact middle.store.payload_withList _ span context
  · exact middle.store.items_withList _ span context
  · obtain ⟨place, holds⟩ := yields.holds
    rw [(middle.store.extends_withList _ span context).keeps id yields.inside, holds]
    rfl

theorem listValue_stops {item : Script} {after : Machine} {interrupt : Interrupt}
    (ends : (self item context).Ends before (.error interrupt) after) (span : Span) :
    (Evaluator.listValue self span [item] context).Ends before (.error interrupt) after := by
  have collected : ([item].mapM fun item => self item context).Ends before (.error interrupt)
      after := by
    rw [List.mapM_cons]
    exact ends.interrupted
  exact collected.interrupted

theorem script_of_list {formula : Formula} (written : script.bare = .list () [formula.tree]) :
    ∃ span item, script = .list span [item] ∧ item.bare = formula.tree := by
  cases script with
  | list span items =>
      injection written with _ same
      cases items with
      | nil => cases same
      | cons item others =>
          injection same with sameItem sameRest
          cases others with
          | nil => exact ⟨span, item, rfl, sameItem⟩
          | cons other rest => cases sameRest
  | _ => cases written

/-- Running the text of a formula yields the list of its value.  If the evaluation from left to
right meets a division by zero, that is reported. -/
theorem run_text_meaning (limits : Limits) (name : String) (formula : Formula)
    (deep : formula.height < limits.depth) (before : Machine) :
    (∀ value, formula.meaning = .ok value →
      ∃ list after,
        (Machine.run limits { name, text := formula.text } "").Ends before (.ok (some list)) after ∧
          HoldsOne after.store list value) ∧
    (formula.meaning = .error .zeroDivisor →
      ∃ fault after,
        (Machine.run limits { name, text := formula.text } "").Ends before (.error fault) after ∧
          fault.cause = .running .divisionByZero [{ name := "<program>", entered := none }] ∧
            fault.cause.details = "Division by zero" ∧ fault.message?.isSome) := by
  obtain ⟨tokens, tree, stop, lexed, parsed, written⟩ := formula.read_text name
  obtain ⟨span, item, rfl, same⟩ := script_of_list written
  obtain ⟨depth, enough⟩ : ∃ depth, limits.depth = depth + 1 :=
    Nat.exists_eq_add_of_le' (Nat.le_trans (Nat.le_add_left 1 _) deep)
  have fits : formula.height ≤ depth := by omega
  -- The list of statements takes one level of depth, the formula has the others.
  have opened : Evaluator.limited limits (.list span [item]) (Evaluator.outermost before) =
      Evaluator.listValue (Evaluator.atDepth limits depth) span [item]
        (Evaluator.outermost before) := by
    rw [Evaluator.limited, enough]
    rfl
  have answers : Answers (Evaluator.atDepth limits depth item (Evaluator.outermost before))
      (Evaluator.outermost before) before formula.meaning :=
    formula.answers_meaning same fits _ before
  constructor
  · intro value means
    rw [means] at answers
    obtain ⟨id, middle, ends, yields⟩ := answers
    obtain ⟨list, after, listed, holds⟩ := listValue_holds ends yields span
    rw [← opened] at listed
    exact ⟨list, after, Evaluator.ends_runSource lexed parsed listed, holds⟩
  · intro means
    rw [means] at answers
    obtain ⟨start, final, after, ends⟩ := answers
    have stopped := listValue_stops ends span
    rw [← opened] at stopped
    exact ⟨_, after, Evaluator.ends_runSource lexed parsed stopped, rfl, rfl, rfl⟩

def digit (value : Fin 10) : Formula :=
  literal value (Nat.lt_of_lt_of_le value.isLt (Nat.le_self_pow (by decide) 10))

def mixed : Formula :=
  binary .both (by decide)
    (binary .eq (by decide) (binary .floorDiv (by decide) (unary .minus (digit 7)) (digit 2))
      (unary .minus (digit 4)))
    (binary .mul (by decide) (binary .add (by decide) (digit 1) (digit 2))
      (binary .pow (by decide) (digit 2) (binary .pow (by decide) (digit 3) (digit 2))))

def divided : Formula :=
  binary .either (by decide)
    (binary .mod (by decide) (digit 5) (binary .sub (by decide) (digit 2) (digit 2)))
    (binary .pow (by decide) (digit 2) (unary .minus (digit 1)))

theorem run_mixed_divided :
    mixed.text = "- 7 // 2 == - 4 and ( 1 + 2 ) * 2 ^ 3 ^ 2" ∧
    divided.text = "5 % ( 2 - 2 ) or 2 ^ - 1" ∧
    (∃ list after,
      (Machine.run .standard { name := "<stdin>", text := mixed.text } "").Ends
          (.initial {} []) (.ok (some list)) after ∧
        HoldsOne after.store list 1536) ∧
    (∃ fault after,
      (Machine.run .standard { name := "<stdin>", text := divided.text } "").Ends
          (.initial {} []) (.error fault) after ∧
        fault.cause = .running .divisionByZero [{ name := "<program>", entered := none }] ∧
          fault.cause.details = "Division by zero" ∧ fault.message?.isSome) := by
  refine ⟨by decide, by decide, ?_, ?_⟩
  · exact (run_text_meaning .standard "<stdin>" mixed (by decide) _).1 1536 (by decide)
  · exact (run_text_meaning .standard "<stdin>" divided (by decide) _).2 (by decide)

end Formula

end Lingo
