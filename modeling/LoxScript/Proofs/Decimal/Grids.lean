/-
  LoxScript.Proofs.Decimal.Grids
  ────────────────────────────────
  What the grid of a magnitude's digits says about the magnitude.

  The digits stand on the coarsest grid with a point that the magnitude covers
  (`Magnitude.exists_coarsest`).  Where that grid is coarser or finer than the
  one of the whole numbers, this shows.

      grid 324 or coarser   — the magnitude is a whole number
                              (`Magnitude.exponent_nonneg_iff`)
      a finer grid          — the last digit is no zero
                              (`Magnitude.digits_mod_ten`)

  For a whole number is itself a point of grid 324, and a point with a zero at
  the end is a point of the next coarser grid.
-/
import LoxScript.Proofs.Decimal.ReadBack

namespace LoxScript.Decimal

/-! ## §1. Spacings. -/

theorem spacing_of_ge {s : Nat} (h : unitGrid ≤ s) :
    spacing s = (Nat.pow 2 1076 * 10 ^ (s - unitGrid), 1) := by
  unfold spacing
  rw [Nat.sub_eq_zero_of_le h]
  generalize 1076 = places
  rfl

theorem spacing_of_le {s : Nat} (h : s ≤ unitGrid) :
    spacing s = (Nat.pow 2 1076, 10 ^ (unitGrid - s)) := by
  unfold spacing
  rw [Nat.sub_eq_zero_of_le h]
  generalize 1076 = places
  rw [show Nat.pow 10 0 = 1 from rfl, Nat.mul_one]
  rfl

/-- The spacing of the unit grid, in steps of a double and in powers of ten. -/
theorem unit_eq : Nat.pow 2 1076 = 4 * 2 ^ 1074 := by decide +kernel

theorem ten_pow_le_unit {n : Nat} (hn : n ≤ 323) : 10 ^ n ≤ Nat.pow 2 1076 :=
  Nat.le_trans (Nat.pow_le_pow_right (by decide) hn) (by decide +kernel)

/-- 30103 / 100000 exceeds log₁₀ 2. -/
theorem two_pow_le (n : Nat) : 2 ^ n ≤ 10 ^ (n * 30103 / 100000 + 1) := by
  have hbase : 2 ^ 100000 ≤ 10 ^ 30103 := by decide +kernel
  have hexponent : 30103 * n ≤ (n * 30103 / 100000 + 1) * 100000 := by omega
  rw [← Nat.pow_le_pow_iff_left (show (100000 : Nat) ≠ 0 by decide)]
  generalize 30103 = l, 100000 = k at hbase hexponent ⊢
  calc (2 ^ n) ^ k = (2 ^ k) ^ n := by rw [← Nat.pow_mul, ← Nat.pow_mul, Nat.mul_comm]
    _ ≤ (10 ^ l) ^ n := Nat.pow_le_pow_left hbase n
    _ = 10 ^ (l * n) := (Nat.pow_mul 10 l n).symm
    _ ≤ 10 ^ ((n * l / k + 1) * k) := Nat.pow_le_pow_right (by decide) hexponent
    _ = (10 ^ (n * l / k + 1)) ^ k := Nat.pow_mul 10 _ k

namespace Magnitude

variable {m : Magnitude}

/-! ## §2. Covered points. -/

theorem le_of_covers {point den : Nat} (h : m.covers point den = true) :
    point ≤ m.high * den := by
  unfold covers at h
  split at h <;> simp only [Bool.and_eq_true, decide_eq_true_eq] at h <;> omega

theorem pos_of_covers (hm : m.significand ≠ 0) {point den : Nat} (hden : 0 < den)
    (h : m.covers point den = true) : 0 < point := by
  obtain ⟨hlow, -, -⟩ := m.bounds_of_covers h
  have hunit : 0 < den * 2 ^ m.shift := Nat.mul_pos hden (Nat.two_pow_pos _)
  have hbelow := Nat.mul_le_mul_right (den * 2 ^ m.shift) m.below_le
  have hone := Nat.mul_le_mul_right (den * 2 ^ m.shift) (Nat.pos_of_ne_zero hm)
  omega

/-- The same point with other digits. -/
theorem covers_mul {point den k : Nat} (hk : 0 < k) :
    m.covers (point * k) (den * k) = m.covers point den := by
  unfold covers
  simp only [← Nat.mul_assoc, Nat.mul_le_mul_right_iff hk, Nat.mul_lt_mul_right hk]

/-- **The search begins high enough.**  Beyond its first grid the magnitude
covers no whole number and no part of one. -/
theorem le_coarseGrid {s k : Nat} (hs : s ≤ unitGrid) (hk : 0 < k)
    (h : m.covers (k * (spacing s).1) (spacing s).2 = true) : s ≤ m.coarseGrid := by
  have hpoint := le_of_covers h
  rw [spacing_of_le hs] at hpoint
  have hhigh : m.high < 10 ^ m.coarseGrid :=
    Nat.lt_of_lt_of_le Nat.lt_log2_self (two_pow_le _)
  by_contra hlt
  have hunit : 10 ^ (m.coarseGrid + (unitGrid - s)) ≤ Nat.pow 2 1076 := by
    refine ten_pow_le_unit ?_
    unfold unitGrid at hs ⊢
    omega
  generalize Nat.pow 2 1076 = unit at hpoint hunit
  refine absurd ?_ (Nat.lt_irrefl unit)
  calc unit ≤ k * unit := Nat.le_mul_of_pos_left unit hk
    _ ≤ m.high * 10 ^ (unitGrid - s) := hpoint
    _ < 10 ^ m.coarseGrid * 10 ^ (unitGrid - s) :=
      Nat.mul_lt_mul_of_pos_right hhigh (Nat.pow_pos (by decide))
    _ = 10 ^ (m.coarseGrid + (unitGrid - s)) := (Nat.pow_add 10 _ _).symm
    _ ≤ unit := hunit

/-- **The digits of a magnitude** stand on a grid, and it covers no point of a
coarser grid up to that of the whole numbers. -/
theorem exists_coarsest (hm : m.significand ≠ 0) :
    ∃ t d : Nat, m.shortest = ⟨d, t - (unitGrid : Int)⟩ ∧ m.onGrid? t = some d ∧ 0 < d
      ∧ ∀ u k, t < u → u ≤ unitGrid → 0 < k →
        m.covers (k * (spacing u).1) (spacing u).2 = false := by
  obtain ⟨t, d, hfound, hd, hcoarser⟩ := m.exists_grid hm m.coarseGrid
  refine ⟨t, d, (if_neg hm).trans hfound, hd, ?_, ?_⟩
  · have hpos := pos_of_covers hm (spacing_pos t).2 (m.covers_of_onGrid? hd)
    exact Nat.pos_of_mul_pos_right hpos
  · intro u k htu hu hk
    rw [Bool.eq_false_iff]
    intro hcovers
    obtain ⟨d', hd'⟩ := m.exists_onGrid? hm hcovers
    rw [hcoarser u htu (le_coarseGrid hu hk hcovers)] at hd'
    cases hd'

/-! ## §3. Whole numbers. -/

/-- The magnitude is a whole number. -/
def IsWhole (m : Magnitude) : Prop := 2 ^ 1074 ∣ m.significand * 2 ^ m.shift

/-- A covered point that is a whole number of steps is the magnitude itself. -/
theorem eq_significand_of_covers {steps : Nat}
    (h : m.covers (4 * (steps * 2 ^ m.shift)) 1 = true) : steps = m.significand := by
  obtain ⟨hlow, hhigh, -⟩ := m.bounds_of_covers h
  rw [Nat.one_mul] at hlow hhigh
  have hunit : 0 < 2 ^ m.shift := Nat.two_pow_pos _
  have hbelow := Nat.mul_le_mul_right (2 ^ m.shift) m.below_le
  -- two different numbers of steps are more than half a step apart
  rcases Nat.lt_trichotomy steps m.significand with hlt | heq | hlt
  · have hapart := Nat.mul_le_mul_right (2 ^ m.shift) (Nat.succ_le_of_lt hlt)
    rw [Nat.succ_mul] at hapart
    omega
  · exact heq
  · have hapart := Nat.mul_le_mul_right (2 ^ m.shift) (Nat.succ_le_of_lt hlt)
    rw [Nat.succ_mul] at hapart
    omega

theorem isWhole_of_onGrid? {t d : Nat} (h : m.onGrid? t = some d) (ht : unitGrid ≤ t) :
    m.IsWhole := by
  have hcovers := m.covers_of_onGrid? h
  rw [spacing_of_ge ht, unit_eq] at hcovers
  dsimp only at hcovers
  unfold IsWhole
  generalize 1074 = places at hcovers ⊢
  rcases Nat.le_total m.shift places with hfine | hcoarse
  · obtain ⟨k, rfl⟩ := Nat.exists_eq_add_of_le hfine
    have hpoint : d * (4 * 2 ^ (m.shift + k) * 10 ^ (t - unitGrid))
        = 4 * (d * 10 ^ (t - unitGrid) * 2 ^ k * 2 ^ m.shift) := by
      ring
    rw [hpoint] at hcovers
    rw [← eq_significand_of_covers hcovers]
    exact ⟨d * 10 ^ (t - unitGrid), by ring⟩
  · exact Nat.dvd_mul_left_of_dvd (Nat.pow_dvd_pow 2 hcoarse) _

/-- A whole number is a point of the unit grid. -/
theorem exists_covers_of_isWhole (hm : m.significand ≠ 0) (h : m.IsWhole) :
    ∃ n, 0 < n ∧ m.covers (n * (spacing unitGrid).1) (spacing unitGrid).2 = true := by
  obtain ⟨n, hn⟩ := h
  have hcovers := m.covers_middle hm Nat.one_pos
  have hmiddle : m.middle * 1 = n * (spacing unitGrid).1 := by
    rw [spacing_of_le le_rfl, unit_eq, middle, Nat.mul_one, Nat.mul_assoc, Nat.pow_eq, hn]
    generalize 1074 = places
    ring
  rw [hmiddle] at hcovers
  have hpos := pos_of_covers hm Nat.one_pos hcovers
  refine ⟨n, Nat.pos_of_mul_pos_right hpos, ?_⟩
  rw [spacing_of_ge le_rfl] at hcovers ⊢
  exact hcovers

/-- **WHOLE NUMBERS** are those whose digits need no fraction. -/
theorem exponent_nonneg_iff (m : Magnitude) : 0 ≤ m.shortest.exponent ↔ m.IsWhole := by
  by_cases hm : m.significand = 0
  · rw [shortest, if_pos hm, IsWhole, hm, Nat.zero_mul]
    exact iff_of_true le_rfl (Nat.dvd_zero _)
  · obtain ⟨t, d, hfound, hd, -, hcoarser⟩ := exists_coarsest hm
    rw [hfound, Int.sub_nonneg, Int.ofNat_le]
    constructor
    · exact isWhole_of_onGrid? hd
    · intro hwhole
      obtain ⟨n, hn, hcovers⟩ := exists_covers_of_isWhole hm hwhole
      by_contra hlt
      rw [hcoarser unitGrid n (Nat.lt_of_not_le hlt) le_rfl hn] at hcovers
      cases hcovers

/-! ## §4. The last digit. -/

/-- **NO ZERO ENDS A FRACTION.** -/
theorem digits_mod_ten (hm : m.significand ≠ 0) (h : m.shortest.exponent < 0) :
    m.shortest.digits % 10 ≠ 0 := by
  obtain ⟨t, d, hfound, hd, hpos, hcoarser⟩ := exists_coarsest hm
  rw [hfound] at h ⊢
  dsimp only at h ⊢
  intro hzero
  obtain ⟨e, rfl⟩ := Nat.dvd_of_mod_eq_zero hzero
  have ht : t + 1 ≤ unitGrid := by omega
  -- without the zero the digits are a point of the next grid
  have hcovers := m.covers_of_onGrid? hd
  rw [spacing_of_le (Nat.le_of_succ_le ht), show unitGrid - t = unitGrid - (t + 1) + 1 by omega,
    Nat.pow_succ, Nat.mul_assoc, Nat.mul_comm 10, covers_mul (by decide)] at hcovers
  have hnone := hcoarser (t + 1) e (Nat.lt_succ_self t) ht (by omega)
  rw [spacing_of_le ht, hcovers] at hnone
  cases hnone

end Magnitude

end LoxScript.Decimal
