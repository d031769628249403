/-
  LoxScript.Proofs.Decimal.Rounding
  ────────────────────────────────
  What rounds to a double.

  A magnitude is *canonical* if its significand fills the 53 bits, unless the
  magnitude is among the least ones; those of doubles are.  A quotient that a
  canonical magnitude covers is rounded to it:

      m.covers (num · 2¹⁰⁷⁶) den   →   (nearestMagnitude num den).bits = m.bits

  The rounded quotient may have the shift of `m`.  Or it lies less than a
  quarter of a step below a power of two, where the steps are half as wide;
  then it has one shift less, and is rounded up to the same power of two.
-/
import LoxScript.Decimal.Shortest
import Mathlib

namespace LoxScript.Decimal

/-! ## §1. Rounding to a whole number. -/

/-- A quotient at most half a step away from a whole number is rounded to it,
if a tie finds it even. -/
theorem roundedQuotient_eq {num den r : Nat} (hlow : 2 * (r * den) ≤ 2 * num + den)
    (hhigh : 2 * num ≤ 2 * (r * den) + den)
    (htie : 2 * (r * den) = 2 * num + den ∨ 2 * num = 2 * (r * den) + den → r % 2 = 0)
    (hden : 0 < den) : roundedQuotient num den = r := by
  have hnum : num = num / den * den + num % den := (Nat.div_add_mod' num den).symm
  have hrest : num % den < den := Nat.mod_lt _ hden
  have hle : num / den < r + 1 := by
    refine Nat.lt_of_mul_lt_mul_right (a := den) ?_
    rw [Nat.add_one_mul]
    omega
  have hge : r < num / den + 2 := by
    refine Nat.lt_of_mul_lt_mul_right (a := den) ?_
    rw [Nat.add_mul]
    omega
  unfold roundedQuotient
  dsimp only
  -- the whole number is the quotient or the one above it, and decides how it was rounded
  obtain hr | hr : r = num / den ∨ r = num / den + 1 := by omega
  · have hmul : r * den = num / den * den := by rw [hr]
    split
    · exact hr.symm
    · rw [if_neg (by omega)]
      have := htie (.inr (by omega))
      omega
  · have hmul : r * den = num / den * den + den := by rw [hr, Nat.add_one_mul]
    rw [if_neg (by omega)]
    split
    · exact hr.symm
    · have := htie (.inl (by omega))
      omega

/-! ## §2. Canonical magnitudes. -/

/-- The significand has 53 bits, or the steps are the least ones. -/
structure Magnitude.IsCanonical (m : Magnitude) : Prop where
  significand_lt : m.significand < 2 ^ 53
  le_significand : 0 < m.shift → 2 ^ 52 ≤ m.significand

theorem Magnitude.isCanonical_ofBits (b : Nat) : (Magnitude.ofBits b).IsCanonical := by
  constructor <;> simp only [Magnitude.ofBits, Nat.pow_eq] <;> omega

theorem Magnitude.below_le (m : Magnitude) : m.below ≤ 2 := by
  unfold Magnitude.below
  split <;> omega

/-- What a magnitude covers, counted in quarters of `den` of its steps. -/
theorem Magnitude.bounds_of_covers {m : Magnitude} {point den : Nat}
    (h : m.covers point den = true) :
    4 * (m.significand * (den * 2 ^ m.shift)) ≤ point + m.below * (den * 2 ^ m.shift)
      ∧ point ≤ 4 * (m.significand * (den * 2 ^ m.shift)) + 2 * (den * 2 ^ m.shift)
      ∧ (m.significand % 2 = 1 →
        4 * (m.significand * (den * 2 ^ m.shift)) < point + m.below * (den * 2 ^ m.shift)
        ∧ point < 4 * (m.significand * (den * 2 ^ m.shift)) + 2 * (den * 2 ^ m.shift)) := by
  have hlow : m.low * den
      = 4 * (m.significand * (den * 2 ^ m.shift)) - m.below * (den * 2 ^ m.shift) := by
    rw [Magnitude.low, Nat.pow_eq, Nat.sub_mul, Nat.sub_mul]
    congr 1 <;> ring
  have hhigh : m.high * den
      = 4 * (m.significand * (den * 2 ^ m.shift)) + 2 * (den * 2 ^ m.shift) := by
    rw [Magnitude.high, Nat.pow_eq]
    ring
  unfold Magnitude.covers at h
  rw [hlow, hhigh] at h
  split at h <;> simp only [Bool.and_eq_true, decide_eq_true_eq] at h <;> omega

/-! ## §3. Rounding what is covered. -/

/-- The number of binary digits of a quotient. -/
theorem le_log2_div_iff {num den k : Nat} (hden : 0 < den) (hk : 0 < k) :
    k ≤ (num / den).log2 ↔ 2 ^ k * den ≤ num := by
  rw [← Nat.le_div_iff_mul_le hden]
  by_cases hzero : num / den = 0
  · rw [hzero, Nat.log2_zero]
    have := Nat.two_pow_pos k
    omega
  · exact Nat.le_log2 hzero

/-- Half a step around the significand. -/
theorem roundedQuotient_of_covers {m : Magnitude} {steps den : Nat} (hden : 0 < den)
    (h : m.covers (4 * steps) den = true) :
    roundedQuotient steps (den * 2 ^ m.shift) = m.significand := by
  obtain ⟨hlow, hhigh, hodd⟩ := m.bounds_of_covers h
  have hunit : 0 < den * 2 ^ m.shift := Nat.mul_pos hden (Nat.two_pow_pos _)
  have hbelow := Nat.mul_le_mul_right (den * 2 ^ m.shift) m.below_le
  exact roundedQuotient_eq (by omega) (by omega) (by omega) hunit

/-- Less than a quarter of a step below a power of two the steps are half as
wide. -/
theorem roundedQuotient_of_covers_of_lt {m : Magnitude} {steps den h : Nat} (hden : 0 < den)
    (hshift : m.shift = h + 1) (hsig : m.significand = 2 ^ 52)
    (hcovers : m.covers (4 * steps) den = true) (hlt : steps < 2 ^ 52 * (den * 2 ^ m.shift)) :
    51 + m.shift ≤ (steps / den).log2 ∧ roundedQuotient steps (den * 2 ^ h) = 2 ^ 53 := by
  have hbelow : m.below = 1 := if_pos ⟨hsig, by omega⟩
  obtain ⟨hlow, -, -⟩ := m.bounds_of_covers hcovers
  have hdouble : den * 2 ^ m.shift = 2 * (den * 2 ^ h) := by
    rw [hshift, Nat.pow_succ]
    ring
  have hunit : 0 < den * 2 ^ h := Nat.mul_pos hden (Nat.two_pow_pos _)
  rw [hsig, hbelow, hdouble] at hlow
  rw [hdouble] at hlt
  constructor
  · have hpow : 2 ^ (51 + m.shift) * den = 2 ^ 51 * (2 * (den * 2 ^ h)) := by
      rw [Nat.pow_add, ← hdouble]
      ring
    rw [le_log2_div_iff hden (by omega), hpow]
    omega
  · exact roundedQuotient_eq (by omega) (by omega) (by omega) hunit

/-- **What a canonical magnitude covers is rounded to it.** -/
theorem bits_nearestMagnitude {m : Magnitude} (hm : m.IsCanonical) {num den : Nat}
    (hden : 0 < den) (h : m.covers (4 * (num * Nat.pow 2 1074)) den = true) :
    (nearestMagnitude num den).bits = m.bits := by
  obtain ⟨hlow, hhigh, -⟩ := m.bounds_of_covers h
  have hbelow := Nat.mul_le_mul_right (den * 2 ^ m.shift) m.below_le
  have hunit : 0 < den * 2 ^ m.shift := Nat.mul_pos hden (Nat.two_pow_pos _)
  have hpow : ∀ k, 2 ^ (k + m.shift) * den = 2 ^ k * (den * 2 ^ m.shift) := by
    intro k
    rw [Nat.pow_add]
    ring
  unfold nearestMagnitude Magnitude.bits
  generalize num * Nat.pow 2 1074 = steps at h hlow hhigh ⊢
  simp only [Nat.pow_eq]
  -- the shift is not larger, since the significand has 53 bits
  have hshift_le : (steps / den).log2 - 52 ≤ m.shift := by
    by_contra hgt
    have hlog := (le_log2_div_iff hden (Nat.add_pos_left (by decide) m.shift)).1
      (show 53 + m.shift ≤ (steps / den).log2 by omega)
    rw [hpow] at hlog
    have := Nat.mul_le_mul_right (den * 2 ^ m.shift) (Nat.le_sub_one_of_lt hm.significand_lt)
    omega
  -- it is one less if the quotient lies below a power of two, and else the same
  obtain hless | hsame := Nat.lt_or_eq_of_le hshift_le
  · have hlt : steps < 2 ^ 52 * (den * 2 ^ m.shift) := by
      rw [← hpow, ← Nat.not_le, ← le_log2_div_iff hden (by omega)]
      omega
    have hsig : m.significand = 2 ^ 52 := by
      refine Nat.le_antisymm (Nat.le_of_lt_succ ?_) (hm.le_significand (by omega))
      refine Nat.lt_of_mul_lt_mul_right (a := den * 2 ^ m.shift) ?_
      omega
    obtain ⟨k, hk⟩ := Nat.exists_eq_add_one.2 (Nat.zero_lt_of_lt hless)
    obtain ⟨hlog, hround⟩ := roundedQuotient_of_covers_of_lt hden hk hsig h hlt
    rw [show (steps / den).log2 - 52 = k by omega, hround, hsig, hk]
    omega
  · rw [hsame, roundedQuotient_of_covers hden h]

end LoxScript.Decimal
