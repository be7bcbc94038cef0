/-
Primes told from other numbers.

Beyond two and three every prime stands next to a multiple of six, and a composite number has a prime
factor that is not above its root.  So trying the neighbours of six, twelve and so on up to the root
finds a factor of each composite number that two and three do not divide.
-/

import Lingo.Proofs.Eval.Formula
import Lingo.Proofs.Eval.Keys
import Mathlib.Data.Nat.Prime.Basic
import Mathlib.Data.Nat.Sqrt

namespace Lingo

/-- Of the numbers that are tried up to the root, one divides the number just if it is not prime. -/
theorem exists_tried_iff {n : Nat} (large : 3 < n) (odd : ¬2 ∣ n) (noThird : ¬3 ∣ n) :
    (∃ round < (n.sqrt + 1) / 6, 5 + 6 * round ∣ n ∨ 5 + 6 * round + 2 ∣ n) ↔ ¬n.Prime := by
  constructor
  · rintro ⟨round, tried, divides⟩ prime
    -- Numbers are tried only if the root is at least five, and then they are below the number.
    have root : n.sqrt * n.sqrt ≤ n := n.sqrt_le
    have five : 5 * n.sqrt ≤ n.sqrt * n.sqrt := Nat.mul_le_mul_right _ (by omega)
    rcases divides with factor | factor
    · have same := (prime.eq_one_or_self_of_dvd _ factor).resolve_left (by omega)
      omega
    · have same := (prime.eq_one_or_self_of_dvd _ factor).resolve_left (by omega)
      omega
  · intro composite
    have prime : n.minFac.Prime := Nat.minFac_prime (by omega)
    have factor : n.minFac ∣ n := n.minFac_dvd
    have bounded : n.minFac ≤ n.sqrt :=
      Nat.le_sqrt'.mpr (Nat.minFac_sq_le_self (by omega) composite)
    have two : ¬2 ∣ n.minFac := fun even => odd (even.trans factor)
    have three : ¬3 ∣ n.minFac := fun third => noThird (third.trans factor)
    have least := prime.two_le
    have residue : n.minFac % 6 = 5 ∨ n.minFac % 6 = 1 := by omega
    have beside : 5 + 6 * ((n.minFac - 5) / 6) = n.minFac ∨
        5 + 6 * ((n.minFac - 5) / 6) + 2 = n.minFac := by omega
    exact ⟨(n.minFac - 5) / 6, by omega,
      beside.imp (fun same => by rwa [same]) fun same => by rwa [same]⟩

namespace Library

theorem dividedBy_int (n divisor : Nat) : dividedBy (.int n) divisor = .ok (n % divisor == 0) := by
  change Except.ok ((n : Int).fmod divisor == 0) = _
  rw [Int.fmod_eq_emod_of_nonneg _ (Int.natCast_nonneg divisor), ← Int.natCast_mod]
  congr 1
  rw [Bool.eq_iff_iff, beq_iff_eq, beq_iff_eq]
  exact Int.natCast_eq_zero

theorem exists_dividedFrom (n count divisor : Nat) :
    ∃ found, dividedFrom (.int n) count divisor = .ok found ∧ (found = true ↔
      ∃ round < count, divisor + 6 * round ∣ n ∨ divisor + 6 * round + 2 ∣ n) := by
  induction count generalizing divisor with
  | zero => exact ⟨false, rfl, by simp⟩
  | succ count ih =>
      obtain ⟨found, later, known⟩ := ih (divisor + 6)
      refine ⟨n % divisor == 0 || (n % (divisor + 2) == 0 || found), ?_, ?_⟩
      · change (dividedBy (.int n) divisor >>= fun first => if first then pure true
          else dividedBy (.int n) (divisor + 2 : Nat) >>= fun second => if second then pure true
            else dividedFrom (.int n) count (divisor + 6 : Nat)) = _
        rw [dividedBy_int, dividedBy_int, later]
        cases n % divisor == 0 <;> cases n % (divisor + 2) == 0 <;> rfl
      · have shift (round : Nat) : divisor + 6 + 6 * round = divisor + 6 * (round + 1) := by omega
        simp only [shift] at known
        rw [Bool.or_eq_true, Bool.or_eq_true, known, beq_iff_eq, beq_iff_eq,
          ← Nat.dvd_iff_mod_eq_zero, ← Nat.dvd_iff_mod_eq_zero, Nat.exists_lt_succ_left, or_assoc]
        exact Iff.rfl

theorem exists_primality {rootOf : Scalar → Except Crash Int} {n : Nat} (positive : 0 < n)
    (root : rootOf (.int n) = .ok n.sqrt) :
    ∃ prime, primality rootOf (.int n) = .ok prime ∧ (prime = true ↔ n.Prime) := by
  obtain ⟨found, tried, known⟩ := exists_dividedFrom n ((n.sqrt + 1) / 6) 5
  have opened : primality rootOf (.int n) =
      if (n : Int) == 1 then .ok false else if (n : Int) == 2 || (n : Int) == 3 then .ok true
      else dividedBy (.int n) (2 : Nat) >>= fun even => if even then .ok false
        else dividedBy (.int n) (3 : Nat) >>= fun third => if third then .ok false
          else rootOf (.int n) >>= fun root =>
            dividedFrom (.int n) ((root + 1).toNat / 6) (5 : Nat) >>= fun found => .ok !found := rfl
  rw [opened, root, dividedBy_int, dividedBy_int]
  by_cases one : n = 1
  · subst one
    exact ⟨false, rfl, by simp [Nat.not_prime_one]⟩
  by_cases two : n = 2
  · subst two
    exact ⟨true, rfl, by simp [Nat.prime_two]⟩
  by_cases three : n = 3
  · subst three
    exact ⟨true, rfl, by simp [Nat.prime_three]⟩
  rw [if_neg (by simp; omega), if_neg (by simp; omega)]
  by_cases even : 2 ∣ n
  · refine ⟨false, by rw [Nat.dvd_iff_mod_eq_zero.mp even]; rfl, ?_⟩
    simp [Nat.not_prime_of_dvd_of_lt even le_rfl (by omega)]
  rw [beq_false_of_ne fun zero => even (Nat.dvd_iff_mod_eq_zero.mpr zero)]
  by_cases third : 3 ∣ n
  · refine ⟨false, by rw [Nat.dvd_iff_mod_eq_zero.mp third]; rfl, ?_⟩
    simp [Nat.not_prime_of_dvd_of_lt third (by omega) (by omega)]
  rw [beq_false_of_ne fun zero => third (Nat.dvd_iff_mod_eq_zero.mpr zero)]
  rw [exists_tried_iff (by omega) even third] at known
  refine ⟨!found, ?_, ?_⟩
  · change (dividedFrom (.int n) ((n.sqrt + 1) / 6) (5 : Nat) >>= fun found => .ok !found) = _
    rw [tried]
    rfl
  · rw [Bool.not_eq_true', ← Bool.not_eq_true, known, not_not]

end Library

open Library in
/-- Telling primes, with a way to find the whole part of a root.  On every machine, a whole number
that is not positive is refused.  If the root of a positive one is found right, the answer is the
constant for true if the number is prime, and else the constant for false.  Nothing changes. -/
theorem primes_are_told (rootOf : Scalar → Except Crash Int) (call : Invocation) (before : Machine)
    (value : ObjectId) (n : Int)
    (held : (before.store.object value).payload = .number (.int n)) :
    answer call .isPrime [value] = isPrime wholeRoot call value ∧
    (n ≤ 0 → (isPrime rootOf call value).Ends before (.error (.failed (Operation.fault .notPositive
      call.start call.stop (some call.context)))) before) ∧
    (rootOf (.int n) = .ok n.toNat.sqrt →
      (n.toNat.Prime →
        (isPrime rootOf call value).Ends before (.ok (.object Store.trueId)) before) ∧
      (0 < n → ¬n.toNat.Prime →
        (isPrime rootOf call value).Ends before (.ok (.object Store.falseId)) before)) := by
  have number : (call.number none value).Ends before (.ok (.int n)) before := by
    apply Eval.Ends.bind (ends_payload value before)
    rw [held]
    rfl
  have whole : (Scalar.int n).mod (.int 1) = .ok (.int 0) := by
    change Except.ok (Scalar.int (n.fmod 1)) = _
    rw [Int.fmod_one]
  refine ⟨rfl, ?_, ?_⟩
  · intro small
    refine number.bind ((Eval.ends_settle whole before).bind ?_)
    exact (Eval.ends_settle (Formula.le_int n 0) before).bind (by rw [decide_eq_true small]; rfl)
  · intro root
    have told (positive : 0 < n) : ∃ prime, (isPrime rootOf call value).Ends before
        (.ok (truth prime)) before ∧ (prime = true ↔ n.toNat.Prime) := by
      obtain ⟨m, rfl⟩ := Int.eq_ofNat_of_zero_le (Int.le_of_lt positive)
      obtain ⟨prime, answered, known⟩ := exists_primality (Int.natCast_pos.mp positive) root
      refine ⟨prime, number.bind ((Eval.ends_settle whole before).bind
        ((Eval.ends_settle (Formula.le_int m 0) before).bind ?_)), known⟩
      rw [decide_eq_false (by omega)]
      exact (Eval.ends_settle answered before).bind rfl
    refine ⟨?_, ?_⟩
    · intro prime
      obtain ⟨answer, ends, known⟩ := told (by have := prime.pos; omega)
      rwa [known.mpr prime] at ends
    · intro positive composite
      obtain ⟨answer, ends, known⟩ := told positive
      rwa [Bool.eq_false_iff.mpr fun prime => composite (known.mp prime)] at ends

open Library in
/-- A prime, and the square of one, which only the last number tried divides. -/
theorem primes_are_told_seven :
    let holding (n : Int) : Machine :=
      { globals := ⟨0⟩, store := { objects := ⟨#[{ payload := .number (.int n) }]⟩ } }
    let root (whole : Int) (_ : Scalar) : Except Crash Int := .ok whole
    (isPrime (root 2) default ⟨0⟩).Ends (holding 7) (.ok (.object Store.trueId)) (holding 7) ∧
      (isPrime (root 7) default ⟨0⟩).Ends (holding 49) (.ok (.object Store.falseId)) (holding 49) := by
  intro holding root
  have seven := (primes_are_told (root 2) default (holding 7) ⟨0⟩ 7 rfl).2.2
  have square := (primes_are_told (root 7) default (holding 49) ⟨0⟩ 49 rfl).2.2
  exact ⟨(seven (by decide +kernel)).1 (by decide +kernel),
    (square (by decide +kernel)).2 (by decide) (by decide +kernel)⟩

end Lingo
