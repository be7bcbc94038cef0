/-
The range of floating-point numbers.

A ratio rounds to an infinite number exactly if it is at least half way from the largest finite
number to the power of two above it.  Rounding a smaller integer gives a whole number that is
finite, and it is one only for one itself.
-/

import Mathlib
import Lingo.Numeral.Binary

namespace Lingo.Numeral

open Float.Model (Format UnpackedFloat)
open Float.Model.UnpackedFloat (Sign unpackSign unpackExponent unpackMantissa)

/-! ### Words and their fields -/

theorem toNat_implicit (fraction : BitVec 52) :
    (1#1 ++ fraction).toNat = 2 ^ 52 + fraction.toNat := by
  rw [BitVec.toNat_append, ← Nat.shiftLeft_add_eq_or_of_lt fraction.isLt]
  rfl

def word (negative : Bool) (magnitude : Nat) : UInt64 :=
  (if negative then 2 ^ 63 + magnitude else magnitude : Nat).toUInt64

def signOf (negative : Bool) : Sign :=
  if negative then .negative else .positive

variable (negative : Bool) {magnitude : Nat}

section

variable (bound : magnitude ≤ infiniteMagnitude)

include bound

theorem toNat_word :
    (word negative magnitude).toBitVec.toNat =
      if negative then 2 ^ 63 + magnitude else magnitude := by
  unfold infiniteMagnitude at bound
  apply Nat.mod_eq_of_lt
  split <;> omega

theorem fields_word :
    .ofBitVec (@unpackSign .binary64 (word negative magnitude).toBitVec) = signOf negative ∧
    (@unpackExponent .binary64 (word negative magnitude).toBitVec).toNat = magnitude / 2 ^ 52 ∧
    (@unpackMantissa .binary64 (word negative magnitude).toBitVec).toNat =
      magnitude % 2 ^ 52 := by
  have number := toNat_word negative bound
  unfold infiniteMagnitude at bound
  refine ⟨?_, ?_, ?_⟩
  · have sign : @unpackSign .binary64 (word negative magnitude).toBitVec =
        if negative then 1 else 0 := by
      apply BitVec.eq_of_toNat_eq
      cases negative <;> simp [unpackSign, Nat.shiftRight_eq_div_pow, number] <;> omega
    rw [sign]
    cases negative <;> rfl
  · cases negative <;> simp [unpackExponent, Nat.shiftRight_eq_div_pow, number] <;> omega
  · cases negative <;> simp [unpackMantissa, number]
    omega

theorem toBits_ofMagnitude : (ofMagnitude negative magnitude).toBits = word negative magnitude := by
  obtain ⟨-, exponent, fraction⟩ := fields_word negative bound
  have valid : Format.binary64.Valid (word negative magnitude).toBitVec := by
    constructor
    intro exponents fractions
    rw [exponents] at exponent
    have top : magnitude / 2 ^ 52 = 2047 := exponent.symm
    unfold infiniteMagnitude at bound
    refine absurd (BitVec.eq_of_toNat_eq (fraction.trans ?_)) fractions
    change magnitude % 2 ^ 52 = 0
    omega
  exact congrArg UInt64.ofBitVec (UnpackedFloat.pack_unpack_of_valid valid)

theorem unpack_toModel :
    (ofMagnitude negative magnitude).toModel.unpack =
      UnpackedFloat.unpack .binary64 (word negative magnitude).toBitVec := by
  rw [← toBits_ofMagnitude negative bound]
  rfl

end

theorem exponent_ne_special (finite : magnitude < infiniteMagnitude) :
    @unpackExponent .binary64 (word negative magnitude).toBitVec ≠ -1#11 := by
  intro special
  obtain ⟨-, exponent, -⟩ := fields_word negative (Nat.le_of_lt finite)
  have top : magnitude / 2 ^ 52 = 2047 := exponent.symm.trans (congrArg BitVec.toNat special)
  unfold infiniteMagnitude at finite
  omega

theorem isInf_ofMagnitude (bound : magnitude ≤ infiniteMagnitude) :
    (ofMagnitude negative magnitude).isInf = true ↔ magnitude = infiniteMagnitude := by
  change (ofMagnitude negative magnitude).toModel.unpack.isInf = true ↔ _
  rw [unpack_toModel negative bound]
  rcases Nat.lt_or_eq_of_le bound with finite | same
  · rw [UnpackedFloat.unpack, if_neg (exponent_ne_special negative finite)]
    refine iff_of_false ?_ (Nat.ne_of_lt finite)
    repeat' split
    all_goals exact Bool.false_ne_true
  · subst same
    exact iff_of_true (by cases negative <;> decide) rfl

section Normal

variable (normal : 2 ^ 52 ≤ magnitude) (finite : magnitude < infiniteMagnitude)
include normal finite

theorem unpack_ofMagnitude :
    ∃ positive, (ofMagnitude negative magnitude).toModel.unpack =
      .finite (signOf negative) (2 ^ 52 + magnitude % 2 ^ 52)
        ((magnitude / 2 ^ 52 : Nat) - 1075) positive := by
  obtain ⟨sign, exponent, fraction⟩ := fields_word negative (Nat.le_of_lt finite)
  refine ⟨by omega, ?_⟩
  rw [unpack_toModel negative (Nat.le_of_lt finite), UnpackedFloat.unpack,
    if_neg (exponent_ne_special negative finite), if_neg, sign]
  · have bias : Format.binary64.exponentBias = 1023 := rfl
    simp only [exponent, toNat_implicit, fraction, bias]
    rfl
  · intro least
    have low : magnitude / 2 ^ 52 = 0 := exponent.symm.trans (congrArg BitVec.toNat least)
    omega

theorem abs_ofMagnitude :
    (ofMagnitude negative magnitude).abs = ofMagnitude false magnitude := by
  obtain ⟨_, taken⟩ := unpack_ofMagnitude negative normal finite
  obtain ⟨_, same⟩ := unpack_ofMagnitude false normal finite
  rw [unpack_toModel false (Nat.le_of_lt finite)] at same
  change Float.ofModel (.pack (ofMagnitude negative magnitude).toModel.unpack.abs) =
    Float.ofModel (.pack (UnpackedFloat.unpack .binary64 (word false magnitude).toBitVec))
  rw [taken, same]
  rfl

theorem decode_ofMagnitude : decode (ofMagnitude negative magnitude) =
    .finite negative (magnitude % 2 ^ 52 + 2 ^ 52) ((magnitude / 2 ^ 52 : Nat) - 1075) := by
  have number : (ofMagnitude negative magnitude).toBits.toNat =
      if negative then 2 ^ 63 + magnitude else magnitude := by
    rw [toBits_ofMagnitude negative (Nat.le_of_lt finite)]
    exact toNat_word negative (Nat.le_of_lt finite)
  unfold infiniteMagnitude at finite
  have sign : decide ((if negative then 2 ^ 63 + magnitude else magnitude) / 2 ^ 63 = 1) =
      negative := by
    cases negative <;> simp <;> omega
  have field : (if negative then 2 ^ 63 + magnitude else magnitude) / 2 ^ 52 % 2 ^ 11 =
      magnitude / 2 ^ 52 := by
    cases negative <;> simp <;> omega
  have fraction : (if negative then 2 ^ 63 + magnitude else magnitude) % 2 ^ 52 =
      magnitude % 2 ^ 52 := by
    cases negative <;> simp
    omega
  unfold decode
  simp only [number, sign, field, fraction]
  rw [if_neg (by omega), if_neg (by omega)]

end Normal

/-! ### Rounding -/

variable {numerator denominator : Nat}

theorem roundHalfEven_bounds :
    numerator / denominator ≤ roundHalfEven numerator denominator ∧
      roundHalfEven numerator denominator ≤ numerator / denominator + 1 := by
  unfold roundHalfEven
  grind

/-- From half way on, an odd number gives way to the next. -/
theorem lt_roundHalfEven_iff {odd : Nat} (isOdd : odd % 2 = 1) (positive : 0 < denominator) :
    odd < roundHalfEven numerator denominator ↔
      (2 * odd + 1) * denominator ≤ 2 * numerator := by
  have parts := Nat.div_add_mod numerator denominator
  have rest := Nat.mod_lt numerator positive
  have expanded : (2 * odd + 1) * denominator = 2 * (denominator * odd) + denominator := by
    grind
  rcases Nat.lt_trichotomy odd (numerator / denominator) with below | same | above
  · have least := Nat.mul_le_mul_left denominator below
    rw [Nat.mul_succ] at least
    have bounds := @roundHalfEven_bounds numerator denominator
    exact iff_of_true (by omega) (by omega)
  · rw [expanded, same]
    unfold roundHalfEven
    grind
  · have most := Nat.mul_le_mul_left denominator above
    rw [Nat.mul_succ] at most
    have bounds := @roundHalfEven_bounds numerator denominator
    exact iff_of_false (by omega) (by omega)

theorem unscale_eq (exponent : Int) : unscale numerator denominator exponent =
    (numerator * 2 ^ (-exponent).toNat, denominator * 2 ^ exponent.toNat) := by
  unfold unscale
  split
  next whole => rw [show (-exponent).toNat = 0 by omega, Nat.pow_zero, Nat.mul_one]
  next => rw [show exponent.toNat = 0 by omega, Nat.pow_zero, Nat.mul_one]

/-- How two scaled numbers compare is told by the difference of their scales. -/
theorem scaled_lt_iff {exponent : Int} {up down : Nat} (scales : exponent = (up : Int) - down)
    (left right : Nat) :
    left * 2 ^ (-exponent).toNat < right * 2 ^ exponent.toNat ↔
      left * 2 ^ down < right * 2 ^ up := by
  obtain ⟨common, rfl⟩ : ∃ common, up = exponent.toNat + common :=
    ⟨up - exponent.toNat, by omega⟩
  obtain rfl : down = (-exponent).toNat + common := by omega
  rw [Nat.pow_add, Nat.pow_add, ← Nat.mul_assoc, ← Nat.mul_assoc,
    Nat.mul_lt_mul_right (Nat.two_pow_pos common)]

theorem ratioExponent_eq (positive : 0 < denominator) : ratioExponent numerator denominator =
    max (if numerator * 2 ^ (denominator.log2 + 52) < 2 ^ 52 * denominator * 2 ^ numerator.log2
      then (numerator.log2 : Int) - (denominator.log2 + 53 : Nat)
      else (numerator.log2 : Int) - (denominator.log2 + 52 : Nat)) leastExponent := by
  have guess : (numerator.log2 : Int) - denominator.log2 - 52 =
      (numerator.log2 : Int) - (denominator.log2 + 52 : Nat) := by
    omega
  have short : (unscale numerator denominator
        ((numerator.log2 : Int) - (denominator.log2 + 52 : Nat))).1 /
      (unscale numerator denominator
        ((numerator.log2 : Int) - (denominator.log2 + 52 : Nat))).2 < 2 ^ 52 ↔
      numerator * 2 ^ (denominator.log2 + 52) < 2 ^ 52 * denominator * 2 ^ numerator.log2 := by
    rw [unscale_eq, Nat.div_lt_iff_lt_mul (Nat.mul_pos positive (Nat.two_pow_pos _)),
      ← scaled_lt_iff rfl, Nat.mul_assoc]
  unfold ratioExponent
  simp only [guess, short]
  congr 2
  omega

theorem scaled_lt_mono {lower upper : Int} (ordered : lower ≤ upper) {left right : Nat}
    (less : left * 2 ^ (-lower).toNat < right * 2 ^ lower.toNat) :
    left * 2 ^ (-upper).toNat < right * 2 ^ upper.toNat := by
  have scales : upper = (lower.toNat + (upper - lower).toNat : Nat) - (-lower).toNat := by omega
  rw [scaled_lt_iff scales]
  refine Nat.lt_of_lt_of_le less (Nat.mul_le_mul_left right ?_)
  exact Nat.pow_le_pow_right (by decide) (Nat.le_add_right _ _)

section Scaled

variable (numerator) (positive : 0 < denominator)
include positive

theorem scaled_lt : numerator * 2 ^ (-ratioExponent numerator denominator).toNat <
    2 ^ 53 * denominator * 2 ^ (ratioExponent numerator denominator).toNat := by
  rw [ratioExponent_eq positive]
  apply scaled_lt_mono (Int.le_max_left _ _)
  split
  next short =>
    rw [scaled_lt_iff rfl]
    calc numerator * 2 ^ (denominator.log2 + 53)
        = 2 * (numerator * 2 ^ (denominator.log2 + 52)) := by grind
      _ < 2 * (2 ^ 52 * denominator * 2 ^ numerator.log2) := by omega
      _ = 2 ^ 53 * denominator * 2 ^ numerator.log2 := by grind
  next =>
    rw [scaled_lt_iff rfl]
    calc numerator * 2 ^ (denominator.log2 + 52)
        < 2 ^ (numerator.log2 + 1) * 2 ^ (denominator.log2 + 52) :=
          Nat.mul_lt_mul_of_pos_right Nat.lt_log2_self (Nat.two_pow_pos _)
      _ = 2 ^ 53 * 2 ^ denominator.log2 * 2 ^ numerator.log2 := by grind
      _ ≤ 2 ^ 53 * denominator * 2 ^ numerator.log2 := by
          have least := Nat.log2_self_le (Nat.ne_of_gt positive)
          exact Nat.mul_le_mul_right _ (Nat.mul_le_mul_left _ least)

theorem leastExponent_le : leastExponent ≤ ratioExponent numerator denominator := by
  rw [ratioExponent_eq positive]
  exact Int.le_max_right _ _

/-- The mantissa of the number nearest to a ratio, before a carry. -/
def ratioMantissa (numerator denominator : Nat) : Nat :=
  roundHalfEven (numerator * 2 ^ (-ratioExponent numerator denominator).toNat)
    (denominator * 2 ^ (ratioExponent numerator denominator).toNat)

theorem ratioMantissa_le : ratioMantissa numerator denominator ≤ 2 ^ 53 := by
  have less := scaled_lt numerator positive
  rw [Nat.mul_assoc, ← Nat.div_lt_iff_lt_mul (Nat.mul_pos positive (Nat.two_pow_pos _))] at less
  exact Nat.le_trans roundHalfEven_bounds.2 less

variable {numerator}

theorem le_scaled (nonzero : numerator ≠ 0)
    (large : leastExponent < ratioExponent numerator denominator) :
    2 ^ 52 * denominator * 2 ^ (ratioExponent numerator denominator).toNat ≤
      numerator * 2 ^ (-ratioExponent numerator denominator).toNat := by
  rw [ratioExponent_eq positive] at large ⊢
  rw [Int.max_eq_left (by omega), ← Nat.not_lt]
  split
  next short =>
    rw [scaled_lt_iff rfl, Nat.not_lt]
    calc 2 ^ 52 * denominator * 2 ^ numerator.log2
        ≤ 2 ^ 52 * 2 ^ (denominator.log2 + 1) * 2 ^ numerator.log2 :=
          Nat.mul_le_mul_right _ (Nat.mul_le_mul_left _ (Nat.le_of_lt Nat.lt_log2_self))
      _ = 2 ^ numerator.log2 * 2 ^ (denominator.log2 + 53) := by grind
      _ ≤ numerator * 2 ^ (denominator.log2 + 53) :=
          Nat.mul_le_mul_right _ (Nat.log2_self_le nonzero)
  next long =>
    rw [scaled_lt_iff rfl]
    exact long

theorem le_ratioMantissa (nonzero : numerator ≠ 0)
    (large : leastExponent < ratioExponent numerator denominator) :
    2 ^ 52 ≤ ratioMantissa numerator denominator := by
  have least := le_scaled positive nonzero large
  rw [Nat.mul_assoc, ← Nat.le_div_iff_mul_le (Nat.mul_pos positive (Nat.two_pow_pos _))] at least
  exact Nat.le_trans least roundHalfEven_bounds.1

end Scaled

/-- The magnitude of the number nearest to a ratio, if the exponents had no end. -/
def ratioMagnitude (numerator denominator : Nat) : Nat :=
  if ratioMantissa numerator denominator < 2 ^ 52 then ratioMantissa numerator denominator
  else (ratioExponent numerator denominator + 1075).toNat * 2 ^ 52 +
    (ratioMantissa numerator denominator - 2 ^ 52)

theorem ofRatio_eq (nonzero : numerator ≠ 0) : ofRatio negative numerator denominator =
    ofMagnitude negative (min (ratioMagnitude numerator denominator) infiniteMagnitude) := by
  rw [ofRatio, if_neg nonzero]
  simp only [unscale_eq]
  rfl

/-- Half way from the largest finite number to the power of two above it. -/
@[irreducible] def rangeLimit : Nat := (2 ^ 54 - 1) * 2 ^ 970

theorem rangeLimit_mul (factor : Nat) :
    ∃ bits, bits = 970 ∧ rangeLimit * factor = (2 ^ 54 - 1) * (factor * 2 ^ bits) := by
  unfold rangeLimit
  exact ⟨_, rfl, (Nat.mul_assoc _ _ _).trans (congrArg _ (Nat.mul_comm _ _))⟩

theorem infiniteMagnitude_le_iff (nonzero : numerator ≠ 0) (positive : 0 < denominator) :
    infiniteMagnitude ≤ ratioMagnitude numerator denominator ↔
      rangeLimit * denominator ≤ numerator := by
  have most := ratioMantissa_le numerator positive
  have fewest := le_ratioMantissa positive nonzero
  have least := leastExponent_le numerator positive
  have less := scaled_lt numerator positive
  have large := le_scaled positive nonzero
  have half := @lt_roundHalfEven_iff
    (numerator * 2 ^ (-ratioExponent numerator denominator).toNat)
    (denominator * 2 ^ (ratioExponent numerator denominator).toNat) (2 ^ 53 - 1) (by decide)
    (Nat.mul_pos positive (Nat.two_pow_pos _))
  change 2 ^ 53 - 1 < ratioMantissa numerator denominator ↔ _ at half
  obtain ⟨bits, known, limit⟩ := rangeLimit_mul denominator
  unfold ratioMagnitude infiniteMagnitude
  rw [limit]
  unfold leastExponent at fewest least large
  generalize ratioMantissa numerator denominator = mantissa at *
  generalize ratioExponent numerator denominator = exponent at *
  rw [Nat.mul_assoc] at less large
  rcases Int.lt_trichotomy exponent 971 with low | same | high
  · have few : numerator ≤ numerator * 2 ^ (-exponent).toNat :=
      Nat.le_mul_of_pos_right _ (Nat.two_pow_pos _)
    have bounded : denominator * 2 ^ exponent.toNat ≤ denominator * 2 ^ bits :=
      Nat.mul_le_mul_left _ (Nat.pow_le_pow_right (by decide) (by omega))
    exact iff_of_false (by split <;> omega) (by omega)
  · have none : (-exponent).toNat = 0 := by omega
    have power : 2 ^ exponent.toNat = 2 ^ bits * 2 := by
      rw [show exponent.toNat = bits + 1 by omega, Nat.pow_succ]
    rw [none, power, Nat.pow_zero, Nat.mul_one, ← Nat.mul_assoc denominator] at half
    rw [if_neg (Nat.not_lt.mpr (fewest (by omega))), same]
    omega
  · have none : (-exponent).toNat = 0 := by omega
    have many : denominator * (2 ^ bits * 2 ^ 2) ≤ denominator * 2 ^ exponent.toNat := by
      rw [← Nat.pow_add]
      exact Nat.mul_le_mul_left _ (Nat.pow_le_pow_right (by decide) (by omega))
    rw [← Nat.mul_assoc] at many
    rw [none, Nat.pow_zero, Nat.mul_one] at large
    rw [if_neg (Nat.not_lt.mpr (fewest (by omega)))]
    exact iff_of_true (by omega) (by omega)

/-- A ratio rounds to an infinite number exactly if it is not below the limit of the range. -/
theorem isInf_ofRatio (positive : 0 < denominator) :
    (ofRatio negative numerator denominator).isInf = true ↔
      rangeLimit * denominator ≤ numerator := by
  rcases Nat.eq_zero_or_pos numerator with zero | natural
  · subst zero
    change (ofMagnitude negative 0).isInf = true ↔ _
    rw [isInf_ofMagnitude negative (Nat.zero_le _)]
    have some : 0 < rangeLimit * denominator := by
      obtain ⟨bits, _, limit⟩ := rangeLimit_mul denominator
      rw [limit]
      exact Nat.mul_pos (by decide) (Nat.mul_pos positive (Nat.two_pow_pos bits))
    exact iff_of_false (by decide) (Nat.not_le.mpr some)
  · have nonzero := Nat.ne_of_gt natural
    rw [ofRatio_eq negative nonzero, isInf_ofMagnitude negative (Nat.min_le_right _ _),
      ← infiniteMagnitude_le_iff nonzero positive]
    omega

/-! ### Integers in range -/

theorem log2_one : Nat.log2 1 = 0 := by decide

theorem ratioExponent_one {n : Nat} (nonzero : n ≠ 0) :
    ratioExponent n 1 = (n.log2 : Int) - 52 := by
  have least := Nat.log2_self_le nonzero
  rw [ratioExponent_eq Nat.one_pos, log2_one, if_neg (by omega)]
  unfold leastExponent
  omega

/-- The number nearest to a positive integer in range is finite and whole, and it is at least one,
with equality for one only. -/
theorem nearest_spec {n : Nat} (nonzero : n ≠ 0) (inside : n < rangeLimit) :
    ∃ magnitude, (∀ negative, ofRatio negative n 1 = ofMagnitude negative magnitude) ∧
      1023 * 2 ^ 52 ≤ magnitude ∧ magnitude < infiniteMagnitude ∧
      (magnitude = 1023 * 2 ^ 52 ↔ n = 1) ∧
      (magnitude % 2 ^ 52 + 2 ^ 52) % 2 ^ (1075 - magnitude / 2 ^ 52) = 0 := by
  have finite : ratioMagnitude n 1 < infiniteMagnitude := by
    rw [← Nat.not_le, infiniteMagnitude_le_iff nonzero Nat.one_pos]
    omega
  have exponent := ratioExponent_one nonzero
  have fewest := le_ratioMantissa Nat.one_pos nonzero
    (by rw [exponent]; unfold leastExponent; omega)
  have most := ratioMantissa_le n Nat.one_pos
  have magnitude : ratioMagnitude n 1 = (n.log2 + 1022) * 2 ^ 52 + ratioMantissa n 1 := by
    unfold ratioMagnitude
    rw [if_neg (by omega), exponent]
    omega
  refine ⟨ratioMagnitude n 1, ?_, by omega, finite, ?_⟩
  · intro negative
    rw [ofRatio_eq negative nonzero, Nat.min_eq_left (Nat.le_of_lt finite)]
  rcases Nat.lt_or_ge n.log2 52 with small | large
  · have exact : ratioMantissa n 1 = n * 2 ^ (52 - n.log2) := by
      unfold ratioMantissa roundHalfEven
      rw [exponent, show (-((n.log2 : Int) - 52)).toNat = 52 - n.log2 by omega,
        show ((n.log2 : Int) - 52).toNat = 0 by omega, Nat.pow_zero, Nat.mul_one, Nat.mod_one,
        Nat.div_one]
      rfl
    have short : ratioMantissa n 1 < 2 ^ 53 := by
      calc ratioMantissa n 1 = n * 2 ^ (52 - n.log2) := exact
        _ < 2 ^ (n.log2 + 1) * 2 ^ (52 - n.log2) :=
            Nat.mul_lt_mul_of_pos_right Nat.lt_log2_self (Nat.two_pow_pos _)
        _ = 2 ^ 53 := by rw [← Nat.pow_add, show n.log2 + 1 + (52 - n.log2) = 53 by omega]
    constructor
    · constructor
      · intro least
        have none : n.log2 = 0 := by omega
        have below : n < 2 ^ (n.log2 + 1) := Nat.lt_log2_self
        rw [none] at below
        omega
      · intro one
        rw [magnitude, exact, one, log2_one, Nat.one_mul]
        omega
    · rw [show ratioMagnitude n 1 % 2 ^ 52 + 2 ^ 52 = ratioMantissa n 1 by omega,
        show 1075 - ratioMagnitude n 1 / 2 ^ 52 = 52 - n.log2 by omega, exact, Nat.mul_mod_left]
  · constructor
    · refine iff_of_false (by omega) ?_
      intro one
      rw [one, log2_one] at large
      omega
    · rw [show 1075 - ratioMagnitude n 1 / 2 ^ 52 = 0 by omega, Nat.pow_zero, Nat.mod_one]

end Lingo.Numeral
