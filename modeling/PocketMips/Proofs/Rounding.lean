import PocketMips.Statistics
import Mathlib.Algebra.Ring.Nat

/-!
# Quotients that are not too large

Rounding leaves a quotient below the infinity if its numerator is below `2 ^ 1023`. So the time of counts with
fewer cycles than that is a number.
-/
namespace PocketMips

namespace Number.Binary64

variable {num den bound : Nat} {e : Int}

/-- Rounding does not go beyond a bound of the quotient. -/
theorem roundEven_le (lt : num < bound * den) : roundEven num den ≤ bound := by
  have quotient : num / den < bound := Nat.div_lt_of_lt_mul (by rwa [Nat.mul_comm])
  unfold roundEven
  dsimp only
  split
  · omega
  · split <;> omega

theorem scaled_natCast (num den k : Nat) : scaled num den k = (num, den * 2 ^ k) := by
  rw [scaled, if_pos (Int.natCast_nonneg k), Int.toNat_natCast, Nat.shiftLeft_eq]

theorem scaled_neg (num den k : Nat) : scaled num den (-k) = (num * 2 ^ k, den) := by
  cases k with
  | zero => exact (scaled_natCast num den 0).trans (by simp)
  | succ k => rw [scaled, if_neg (by omega), Int.neg_neg, Int.toNat_natCast, Nat.shiftLeft_eq]

theorem scaled_pos (pos : 0 < den) : 0 < (scaled num den e).2 := by
  obtain ⟨k, rfl | rfl⟩ := e.eq_nat_or_neg
  · rw [scaled_natCast]
    exact Nat.mul_pos pos (Nat.two_pow_pos k)
  · rwa [scaled_neg]

/-- From the exponent on that the lengths of the two numbers suggest, the quotient has 53 bits at most. -/
theorem scaled_lt (pos : 0 < den) (le : (num.log2 : Int) ≤ den.log2 + e + 52) :
    (scaled num den e).1 < 2 ^ 53 * (scaled num den e).2 := by
  have above : num < 2 ^ (num.log2 + 1) := Nat.lt_log2_self
  have below : 2 ^ den.log2 ≤ den := Nat.log2_self_le (by omega)
  obtain ⟨k, rfl | rfl⟩ := e.eq_nat_or_neg
  · rw [scaled_natCast]
    calc num < 2 ^ (num.log2 + 1) := above
      _ ≤ 2 ^ (53 + (den.log2 + k)) := Nat.pow_le_pow_right (by decide) (by omega)
      _ = 2 ^ 53 * (2 ^ den.log2 * 2 ^ k) := by rw [Nat.pow_add, Nat.pow_add]
      _ ≤ 2 ^ 53 * (den * 2 ^ k) := Nat.mul_le_mul_left _ (Nat.mul_le_mul_right _ below)
  · rw [scaled_neg]
    calc num * 2 ^ k < 2 ^ (num.log2 + 1) * 2 ^ k := Nat.mul_lt_mul_of_pos_right above (Nat.two_pow_pos k)
      _ = 2 ^ (num.log2 + 1 + k) := (Nat.pow_add ..).symm
      _ ≤ 2 ^ (53 + den.log2) := Nat.pow_le_pow_right (by decide) (by omega)
      _ = 2 ^ 53 * 2 ^ den.log2 := Nat.pow_add ..
      _ ≤ 2 ^ 53 * den := Nat.mul_le_mul_left _ below

/-- An exponent that is less by one doubles the quotient. -/
theorem scaled_pred_lt (lt : (scaled num den e).1 < 2 ^ 52 * (scaled num den e).2) :
    (scaled num den (e - 1)).1 < 2 ^ 53 * (scaled num den (e - 1)).2 := by
  obtain ⟨k, rfl | rfl⟩ := e.eq_nat_or_neg
  · cases k with
    | zero =>
      rw [scaled_natCast] at lt
      rw [show ((0 : Nat) : Int) - 1 = -(1 : Nat) by rfl, scaled_neg]
      omega
    | succ k =>
      rw [scaled_natCast, Nat.pow_succ, ← Nat.mul_assoc] at lt
      rw [show ((k + 1 : Nat) : Int) - 1 = k by omega, scaled_natCast]
      dsimp only at lt ⊢
      omega
  · rw [scaled_neg] at lt
    rw [show -(k : Int) - 1 = -(k + 1 : Nat) by omega, scaled_neg, Nat.pow_succ, ← Nat.mul_assoc]
    dsimp only at lt ⊢
    omega

/-- At the exponent of a quotient it has 53 bits at most. -/
theorem scaled_exponentFor_lt (num : Nat) (pos : 0 < den) :
    (scaled num den (exponentFor num den)).1 < 2 ^ 53 * (scaled num den (exponentFor num den)).2 := by
  have guessed (e : Int) (le : (num.log2 : Int) - den.log2 - 52 ≤ e) :
      (scaled num den e).1 < 2 ^ 53 * (scaled num den e).2 := scaled_lt pos (by omega)
  unfold exponentFor
  dsimp only
  split
  · rename_i few
    rcases Int.lt_or_le ((num.log2 : Int) - den.log2 - 52 - 1) (-1074) with tiny | normal
    · rw [Int.max_eq_right (by omega)]
      exact guessed _ (by omega)
    · rw [Int.max_eq_left normal]
      rw [Nat.one_shiftLeft] at few
      exact scaled_pred_lt (Nat.lt_mul_of_div_lt few (scaled_pos pos))
  · exact guessed _ (Int.le_max_left ..)

/-- A quotient is not too large if its numerator is not. -/
theorem magnitudeBits_lt (pos : 0 < den) (small : num < 1 <<< 1023) : magnitudeBits num den < infinityBits := by
  unfold magnitudeBits infinityBits
  split
  · decide
  · rename_i nonzero
    have significand := roundEven_le (scaled_exponentFor_lt num pos)
    have exponent : exponentFor num den ≤ 970 := by
      rw [Nat.one_shiftLeft] at small
      have length := (Nat.log2_lt nonzero).mpr small
      unfold exponentFor
      dsimp only
      split <;> omega
    dsimp only
    simp only [Nat.shiftLeft_eq]
    omega

theorem exists_ofQuotient? {num : Int} (pos : 0 < den) (small : num.natAbs < 1 <<< 1023) :
    ∃ x, ofQuotient? num den = some x :=
  ⟨_, if_neg (Nat.ne_of_lt (magnitudeBits_lt pos small))⟩

end Number.Binary64

/-- The time of few cycles is a number. -/
theorem Statistics.exists_timeUnder? (s : Statistics) (clock : Clock)
    (few : s.rCount * clock.rCycles + s.iCount * clock.iCycles + s.jCount * clock.jCycles < 1 <<< 1023) :
    ∃ time, s.timeUnder? clock = some time := by
  have total : clock.totalCycles s.rCount s.iCount s.jCount =
      (s.rCount * clock.rCycles + s.iCount * clock.iCycles + s.jCount * clock.jCycles : Nat) := by
    rw [Clock.totalCycles]
    push_cast
    rfl
  exact Number.Binary64.exists_ofQuotient? clock.frequency_pos (by rwa [total, Int.natAbs_natCast])

end PocketMips
