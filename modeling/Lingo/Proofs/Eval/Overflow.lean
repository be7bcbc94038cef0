/-
Integers that an operator cannot combine.

A divisor of zero is reported.  What goes beyond the range of floating-point numbers, and zero
raised to a negative power, ends the evaluation abnormally; all other integers combine to a number.
-/

import Lingo.Proofs.Numeral.Range
import Lingo.Proofs.Eval.Formula
import Lingo.Proofs.Eval.Course

namespace Lingo

open Numeral (ofRatio ofMagnitude rangeLimit signOf infiniteMagnitude)

namespace Scalar

/-- A computation ends abnormally with the cause that is named, or has a value if none is. -/
def Comes (result : Except Crash Scalar) : Option Crash → Prop
  | some cause => result = .error cause
  | none => ∃ value, result = .ok value

theorem floatOfInt_eq (n : Int) : floatOfInt n =
    if rangeLimit ≤ n.natAbs then .error .tooLarge
    else .ok (ofRatio (decide (n < 0)) n.natAbs 1) := by
  have range := @Numeral.isInf_ofRatio (decide (n < 0)) n.natAbs 1 Nat.one_pos
  rw [Nat.mul_one] at range
  unfold floatOfInt Numeral.ofInt?
  simp only [range]
  by_cases beyond : rangeLimit ≤ n.natAbs
  · rw [if_pos beyond, if_pos beyond]
  · rw [if_neg beyond, if_neg beyond]

theorem div_ints {x y : Int} (defined : y ≠ 0) : (int x).div (int y) =
    if rangeLimit * y.natAbs ≤ x.natAbs then .error .tooLarge
    else .ok (.float (ofRatio (decide (x < 0) != decide (y < 0)) x.natAbs y.natAbs)) := by
  have range := @Numeral.isInf_ofRatio (decide (x < 0) != decide (y < 0)) x.natAbs y.natAbs
    (Int.natAbs_pos.mpr defined)
  have unified : unify (int x) (int y) = .ok (.ints x y) := rfl
  unfold div
  rw [unified]
  dsimp only [bind, Except.bind]
  rw [if_neg defined]
  by_cases beyond : rangeLimit * y.natAbs ≤ x.natAbs
  · have none : Numeral.quotient? x y = none := if_pos (range.mpr beyond)
    rw [none, if_pos beyond]
    rfl
  · have some : Numeral.quotient? x y = some _ := if_neg (mt range.mp beyond)
    rw [some, if_neg beyond]
    rfl

/-! ### Powers of floating-point numbers -/

section Powers

variable (negative : Bool) {magnitude : Nat}

theorem isInf_eq_false (finite : magnitude < infiniteMagnitude) :
    (ofMagnitude negative magnitude).isInf = false := by
  rw [← Bool.not_eq_true, Numeral.isInf_ofMagnitude negative (Nat.le_of_lt finite)]
  exact Nat.ne_of_lt finite

variable (normal : 2 ^ 52 ≤ magnitude) (finite : magnitude < infiniteMagnitude)
include normal finite

theorem isNaN_ofMagnitude : (ofMagnitude negative magnitude).isNaN = false := by
  obtain ⟨_, taken⟩ := Numeral.unpack_ofMagnitude negative normal finite
  change (ofMagnitude negative magnitude).toModel.unpack.isNaN = false
  rw [taken]
  rfl

theorem beq_zero : (ofMagnitude negative magnitude == 0.0) = false := by
  obtain ⟨_, taken⟩ := Numeral.unpack_ofMagnitude negative normal finite
  change (ofMagnitude negative magnitude).toModel.unpack.beq (.zero .positive) = false
  rw [taken]
  cases negative <;> rfl

theorem lt_zero : ofMagnitude true magnitude < 0.0 := by
  obtain ⟨_, taken⟩ := Numeral.unpack_ofMagnitude true normal finite
  apply decide_eq_true
  change (ofMagnitude true magnitude).toModel.unpack.lt (.zero .positive) = true
  rw [taken]
  rfl

theorem beq_one : (ofMagnitude false magnitude == 1.0) = true ↔ magnitude = 1023 * 2 ^ 52 := by
  obtain ⟨_, taken⟩ := Numeral.unpack_ofMagnitude false normal finite
  change (ofMagnitude false magnitude).toModel.unpack.beq
    (.finite .positive (2 ^ 52) (-52) (by decide)) = true ↔ _
  rw [taken]
  change (some ((compare ((magnitude / 2 ^ 52 : Nat) - 1075 : Int) (-52)).then
    (compare (2 ^ 52 + magnitude % 2 ^ 52) (2 ^ 52))) == some .eq) = true ↔ _
  rw [beq_iff_eq, Option.some.injEq, Ordering.then_eq_eq, Int.compare_eq_eq, Nat.compare_eq_eq]
  omega

theorem isWhole_ofMagnitude
    (whole : (magnitude % 2 ^ 52 + 2 ^ 52) % 2 ^ (1075 - magnitude / 2 ^ 52) = 0) :
    isWhole (ofMagnitude negative magnitude) = true := by
  unfold isWhole
  rw [Numeral.decode_ofMagnitude negative normal finite]
  change ((magnitude % 2 ^ 52 + 2 ^ 52) %
    2 ^ (-((magnitude / 2 ^ 52 : Nat) - 1075 : Int)).toNat == 0) = true
  rw [show (-((magnitude / 2 ^ 52 : Nat) - 1075 : Int)).toNat = 1075 - magnitude / 2 ^ 52 by omega,
    whole]
  rfl

end Powers

theorem floatPow_nearest {x y : Int} (insideX : x.natAbs < rangeLimit) (nonzero : x ≠ 0)
    (insideY : y.natAbs < rangeLimit) (negative : y < 0) (sign : Bool) :
    Comes (floatPow (ofRatio sign x.natAbs 1) (ofRatio true y.natAbs 1))
      (if 1 < x.natAbs ∧
          ((ofRatio false x.natAbs 1).pow (ofRatio true y.natAbs 1)).isInf = true then
        some .tooLarge
      else none) := by
  obtain ⟨m, base, least, finite, one, -⟩ :=
    Numeral.nearest_spec (Int.natAbs_ne_zero.mpr nonzero) insideX
  obtain ⟨k, exponent, leastOther, finiteOther, -, whole⟩ :=
    Numeral.nearest_spec (Int.natAbs_ne_zero.mpr (Int.ne_of_lt negative)) insideY
  have normal : 2 ^ 52 ≤ m := by omega
  have normalOther : 2 ^ 52 ≤ k := by omega
  simp only [base, exponent, floatPow, beq_zero _ normal finite,
    beq_zero _ normalOther finiteOther, isNaN_ofMagnitude _ normal finite,
    isNaN_ofMagnitude _ normalOther finiteOther, isInf_eq_false _ finite,
    isInf_eq_false _ finiteOther, isWhole_ofMagnitude _ normalOther finiteOther whole,
    Numeral.abs_ofMagnitude _ normal finite, beq_one normal finite, one, Bool.not_true,
    Bool.and_false, Bool.false_eq_true, if_false]
  by_cases both : 1 < x.natAbs ∧ ((ofMagnitude false m).pow (ofMagnitude true k)).isInf = true
  · rw [if_pos both, if_neg (Nat.ne_of_gt both.1), if_pos both.2]
    rfl
  · rw [if_neg both]
    by_cases unit : x.natAbs = 1
    · rw [if_pos unit]
      exact ⟨_, rfl⟩
    · have large : 1 < x.natAbs := by omega
      rw [if_neg unit, if_neg fun infinite => both ⟨large, infinite⟩]
      exact ⟨_, rfl⟩

theorem floatPow_zero {y : Int} (inside : y.natAbs < rangeLimit) (negative : y < 0) :
    floatPow (ofRatio false 0 1) (ofRatio true y.natAbs 1) = .error .undefinedResult := by
  obtain ⟨k, exponent, least, finite, -, -⟩ :=
    Numeral.nearest_spec (Int.natAbs_ne_zero.mpr (Int.ne_of_lt negative)) inside
  have normal : 2 ^ 52 ≤ k := by omega
  have zero : ofRatio false 0 1 = 0.0 := rfl
  rw [zero, exponent, floatPow, beq_zero _ normal finite, isNaN_ofMagnitude _ normal finite,
    isInf_eq_false _ finite]
  simp only [Bool.false_eq_true, if_false]
  rw [if_neg (by decide), if_neg (by decide), if_pos (by decide), if_pos (lt_zero normal finite)]

end Scalar

namespace Operation

/-- How an operator between two integers ends abnormally, if it does.  Integers in range are left
to the power of floating-point numbers. -/
def abnormal? (x y : Int) : BinaryOp → Option Crash
  | .div => if y ≠ 0 ∧ rangeLimit * y.natAbs ≤ x.natAbs then some .tooLarge else none
  | .pow =>
      if 0 ≤ y then none
      else if rangeLimit ≤ x.natAbs ∨ rangeLimit ≤ y.natAbs then some .tooLarge
      else if x = 0 then some .undefinedResult
      else if 1 < x.natAbs ∧
          ((ofRatio false x.natAbs 1).pow (ofRatio true y.natAbs 1)).isInf = true then
        some .tooLarge
      else none
  | _ => none

/-- What is asked of the power of floating-point numbers: those in range and above one, raised to
negative ones, are finite. -/
def PowersShrink : Prop :=
  ∀ m k : Nat, 1 < m → m < rangeLimit → k < rangeLimit →
    ((ofRatio false m 1).pow (ofRatio true k 1)).isInf = false

/-- Operands whose result leaves the range, or is not defined. -/
def Exceeds (x y : Int) : BinaryOp → Prop
  | .div => y ≠ 0 ∧ rangeLimit * y.natAbs ≤ x.natAbs
  | .pow => y < 0 ∧ (x = 0 ∨ rangeLimit ≤ x.natAbs ∨ rangeLimit ≤ y.natAbs)
  | _ => False

theorem abnormal_iff_exceeds (shrink : PowersShrink) {x y : Int} {op : BinaryOp} :
    abnormal? x y op ≠ none ↔ Exceeds x y op := by
  cases op with
  | div => simp [abnormal?, Exceeds]
  | pow =>
      have finite := shrink x.natAbs y.natAbs
      simp only [abnormal?, Exceeds]
      grind
  | _ => simp [abnormal?, Exceeds]

theorem comes_of_combine {op : BinaryOp} (whole : op ≠ .div) {x y : Int}
    (defined : ¬(divides op ∧ y = 0)) (natural : op = .pow → 0 ≤ y) :
    Scalar.Comes (scalars op (.int x) (.int y)) none := by
  cases combined : Formula.combine op whole x y with
  | ok value => exact ⟨_, Formula.scalars_of_combine combined⟩
  | error stuck =>
      cases stuck with
      | zeroDivisor => exact absurd (Formula.combine_eq_zeroDivisor_iff.mp combined) defined
      | negativeExponent => cases op <;> grind [Formula.combine]

theorem comes_pow {x y : Int} (negative : y < 0) :
    Scalar.Comes ((Scalar.int x).pow (.int y)) (abnormal? x y .pow) := by
  have opened : (Scalar.int x).pow (.int y) =
      Scalar.floatOfInt x >>= fun a => Scalar.floatOfInt y >>= fun b => Scalar.floatPow a b :=
    if_neg (Int.not_le.mpr negative)
  rw [abnormal?, if_neg (Int.not_le.mpr negative), opened, Scalar.floatOfInt_eq,
    Scalar.floatOfInt_eq, decide_eq_true negative]
  by_cases beyond : rangeLimit ≤ x.natAbs
  · rw [if_pos beyond, if_pos (Or.inl beyond)]
    rfl
  by_cases beyondToo : rangeLimit ≤ y.natAbs
  · rw [if_neg beyond, if_pos beyondToo, if_pos (Or.inr beyondToo)]
    rfl
  rw [if_neg beyond, if_neg beyondToo, if_neg (not_or.mpr ⟨beyond, beyondToo⟩)]
  by_cases zero : x = 0
  · subst zero
    exact Scalar.floatPow_zero (Nat.not_le.mp beyondToo) negative
  · rw [if_neg zero]
    exact Scalar.floatPow_nearest (Nat.not_le.mp beyond) zero (Nat.not_le.mp beyondToo) negative _

theorem comes_ints (op : BinaryOp) {x y : Int} (defined : ¬(divides op ∧ y = 0)) :
    Scalar.Comes (scalars op (.int x) (.int y)) (abnormal? x y op) := by
  cases op with
  | div =>
      have nonzero : y ≠ 0 := fun zero => defined ⟨rfl, zero⟩
      rw [scalars, abnormal?, Scalar.div_ints nonzero]
      by_cases beyond : rangeLimit * y.natAbs ≤ x.natAbs
      · rw [if_pos beyond, if_pos ⟨nonzero, beyond⟩]
        rfl
      · rw [if_neg beyond, if_neg fun both => beyond both.2]
        exact ⟨_, rfl⟩
  | pow =>
      by_cases natural : 0 ≤ y
      · rw [abnormal?, if_pos natural]
        exact comes_of_combine (by decide) defined fun _ => natural
      · exact comes_pow (Int.not_le.mp natural)
  | _ => exact comes_of_combine (by decide) defined fun power => by cases power

theorem not_divides_zero_of_abnormal {op : BinaryOp} {x y : Int} {cause : Crash}
    (abnormal : abnormal? x y op = some cause) : ¬(divides op ∧ y = 0) := by
  rintro ⟨divided, zero⟩
  cases op <;> simp [abnormal?, zero] at abnormal divided

theorem binary_ints {left right : Object} {x y : Int}
    (holdsLeft : left.payload = .number (.int x)) (holdsRight : right.payload = .number (.int y))
    {op : BinaryOp} (defined : ¬(divides op ∧ y = 0)) (store : Store) :
    binary store op left right =
      scalars op (.int x) (.int y) >>= fun value => .ok (.ok (.fresh (.number value))) := by
  rw [Formula.binary_numbers holdsLeft holdsRight, numbers, if_neg]
  · rfl
  · rintro ⟨divided, zero⟩
    exact defined ⟨divided, eq_of_beq zero⟩

end Operation

namespace Evaluator

theorem ends_yield (value : Scalar) (context : Option Context) (span : Span) (before : Machine) :
    ∃ final, ((liftM (yieldValue context (.fresh (.number value))) : Eval Slot) >>=
        claim span).Ends before (.ok ⟨before.store.objects.size⟩) final ∧
      before.store.Enlarges final.store ∧
      (final.store.object ⟨before.store.objects.size⟩).payload = .number value := by
  refine ⟨_, rfl, ?_, ?_⟩
  · exact (before.store.enlarges_addObject _).modifyObject (Nat.le_refl _) _
  · refine (congrArg Object.payload (Store.object_modifyObject _ _ ?_)).trans ?_
    · exact before.store.objects.lt_size_push _
    · exact congrArg Object.payload (before.store.object_addObject _)

end Evaluator

open Operation (abnormal? divides PowersShrink Exceeds) in
/-- Evaluating an operator between two integers, on any machine.  It ends abnormally where a
number leaves the range of floating-point numbers and for zero raised to a negative power; a divisor
of zero is reported; for all other integers a new number is made.  If the powers of floating-point
numbers above one do not grow where they should shrink, the integers alone tell which ends are
abnormal. -/
theorem integers_combine (limits : Limits) (depth : Nat) (span : Span) (op : BinaryOp)
    (left right : Script) (context : Context) (before : Machine) (x y : Int)
    {middle after : Machine} {a b : ObjectId}
    (first : (Evaluator.atDepth limits depth left context).Ends before (.ok a) middle)
    (second : (Evaluator.atDepth limits depth right context).Ends middle (.ok b) after)
    (holdsLeft : (after.store.object a).payload = .number (.int x))
    (holdsRight : (after.store.object b).payload = .number (.int y)) :
    let evaluation := Evaluator.atDepth limits (depth + 1) (.binary span op left right) context
    (∀ cause, abnormal? x y op = some cause →
      evaluation.result before = (.error cause, after)) ∧
    (divides op → y = 0 → evaluation.Ends before (.error (.failed
      (Operation.fault .divisionByZero (after.store.object b).start (after.store.object b).stop
        (after.store.object a).context))) after) ∧
    (abnormal? x y op = none → ¬(divides op ∧ y = 0) →
      ∃ value final, evaluation.Ends before (.ok ⟨after.store.objects.size⟩) final ∧
        after.store.Enlarges final.store ∧
        (final.store.object ⟨after.store.objects.size⟩).payload = .number value ∧
        Operation.scalars op (.int x) (.int y) = .ok value) ∧
    (PowersShrink →
      ((∃ cause, (evaluation.result before).1 = .error cause) ↔ Exceeds x y op)) := by
  intro evaluation
  have opened : evaluation.result before = _ := Evaluator.result_binaryValue first second span op
  refine (fun parts : _ ∧ _ ∧ _ => ⟨parts.1, parts.2.1, parts.2.2, ?decided⟩) ⟨?_, ?_, ?_⟩
  · intro cause abnormal
    have defined := Operation.not_divides_zero_of_abnormal abnormal
    have comes := @Operation.comes_ints op x y defined
    rw [abnormal] at comes
    have computed : Operation.binary after.store op (after.store.object a)
        (after.store.object b) = .error cause := by
      rw [Operation.binary_ints holdsLeft holdsRight defined, comes]
      rfl
    rw [opened, computed]
    rfl
  · intro divided zero
    have computed := (@Formula.binary_numbers after.store op _ _ _ _ holdsLeft holdsRight).trans
      (if_pos ⟨divided, beq_iff_eq.mpr zero⟩)
    rw [computed] at opened
    exact opened
  · intro normal defined
    have comes := @Operation.comes_ints op x y defined
    rw [normal] at comes
    obtain ⟨value, known⟩ := comes
    have computed : Operation.binary after.store op (after.store.object a)
        (after.store.object b) = .ok (.ok (.fresh (.number value))) := by
      rw [Operation.binary_ints holdsLeft holdsRight defined, known]
      rfl
    obtain ⟨final, ends, larger, payload⟩ :=
      Evaluator.ends_yield value (after.store.object a).context span after
    rw [computed] at opened
    exact ⟨value, final, opened.trans ends, larger, payload, known⟩
  -- The three parts cover all integers, so the crashes are those of the first one.
  case decided =>
    intro shrink
    obtain ⟨crashes, reports, makes⟩ := parts
    rw [← Operation.abnormal_iff_exceeds shrink]
    constructor
    · intro crashed normal
      by_cases zero : divides op ∧ y = 0
      · rw [show evaluation.result before = _ from reports zero.1 zero.2] at crashed
        cases crashed.choose_spec
      · obtain ⟨_, _, ends, _⟩ := makes normal zero
        rw [show evaluation.result before = _ from ends] at crashed
        cases crashed.choose_spec
    · intro abnormal
      obtain ⟨cause, known⟩ := Option.ne_none_iff_exists'.mp abnormal
      exact ⟨cause, by rw [crashes cause known]⟩

/-- A quotient is a number, and a divisor of zero is reported. -/
theorem integers_combine_quotients :
    let context : Context := [{ name := "<program>", entered := none, table := some ⟨0⟩ }]
    let before : Machine := { store := { tables := ⟨#[{}]⟩ }, globals := ⟨0⟩ }
    let quotient (divisor : Nat) : Eval ObjectId := Evaluator.atDepth .standard 2
      (.binary default .div (.number default (.int 7)) (.number default (.int divisor))) context
    (∃ value final, (quotient 2).Ends before (.ok ⟨2⟩) final ∧
      (final.store.object ⟨2⟩).payload = .number value ∧
      Operation.scalars .div (.int 7) (.int 2) = .ok value) ∧
    ∃ fault final, (quotient 0).Ends before (.error (.failed fault)) final ∧
      fault.cause.details = "Division by zero" := by
  intro context before quotient
  obtain ⟨-, -, yields, -⟩ := integers_combine .standard 1 default .div (.number default (.int 7))
    (.number default (.int 2)) context before 7 2 rfl rfl rfl rfl
  obtain ⟨-, reports, -⟩ := integers_combine .standard 1 default .div (.number default (.int 7))
    (.number default (.int 0)) context before 7 0 rfl rfl rfl rfl
  obtain ⟨value, final, ends, -, payload, known⟩ := yields (by decide +kernel) (by decide)
  exact ⟨⟨value, final, ends, payload, known⟩, _, _, reports rfl rfl, rfl⟩

/-- Zero raised to a negative power, a quotient and a power out of range are not reported. -/
theorem integers_end_abnormally :
    let crash (text : String) : Option Crash :=
      match (Machine.run .standard { name := "<stdin>", text } "").run.run (.initial {} []) with
      | (.error cause, _) => some cause
      | _ => none
    crash "0 ^ -1" = some .undefinedResult ∧ crash "2 ^ 1024 / 1" = some .tooLarge ∧
      crash "(2 ^ 1024) ^ -1" = some .tooLarge := by
  decide +kernel

end Lingo
