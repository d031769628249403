/-
  LoxScript.Proofs.Decimal.ReadBack
  ────────────────────────────────
  The display form of a number determines the number.

  The digits that are shown are a point that the magnitude covers, and the
  text says which one: read as a numeral, it is the fraction

      digits · 10 ^ exponent  =  numerator / denominator

  What a magnitude covers is rounded to it (`bits_nearestMagnitude`), so the
  bits of a double can be computed from its text, and no two doubles share
  one.
-/
import LoxScript.Decimal.Numeral
import LoxScript.Proofs.Decimal.Rounding

namespace LoxScript.Decimal

/-! ## §1. The digits are covered. -/

/-- Decimal digits as a fraction. -/
def Digits.numerator (d : Digits) : Nat := d.digits * 10 ^ d.exponent.toNat

def Digits.denominator (d : Digits) : Nat := 10 ^ (-d.exponent).toNat

theorem Digits.denominator_pos (d : Digits) : 0 < d.denominator := Nat.pow_pos (by decide)

/-- A point of a grid that stands for a magnitude is covered by it. -/
theorem Magnitude.covers_of_onGrid? {m : Magnitude} {s d : Nat} (h : m.onGrid? s = some d) :
    m.covers (d * (spacing s).1) (spacing s).2 = true := by
  unfold Magnitude.onGrid? at h
  generalize spacing s = grid at h ⊢
  obtain ⟨step, den⟩ := grid
  dsimp only at h ⊢
  generalize m.middle * den / step = low at h
  split at h
  · next hlow hhigh =>
    -- both neighbours are covered: the nearer one stands, or the even one
    have hparity : low + low % 2 = low ∨ low + low % 2 = low + 1 := by omega
    split at h
    · cases h
      exact hlow
    · split at h
      · cases h
        exact hhigh
      · cases h
        rcases hparity with heq | heq <;> rw [heq] <;> assumption
  · next hlow _ =>
    cases h
    exact hlow
  · next hhigh =>
    cases h
    exact hhigh
  · cases h

/-- Covering holds where both ends lie strictly outside. -/
theorem Magnitude.covers_of_lt {m : Magnitude} {point den : Nat} (hlow : m.low * den < point)
    (hhigh : point < m.high * den) : m.covers point den = true := by
  unfold Magnitude.covers
  split
  · simp [hlow.le, hhigh.le]
  · simp [hlow, hhigh]

theorem Magnitude.low_lt_middle {m : Magnitude} (hm : m.significand ≠ 0) : m.low < m.middle := by
  have hbelow : 0 < m.below := by
    unfold Magnitude.below
    split <;> decide
  exact Nat.mul_lt_mul_of_pos_right (by omega) (Nat.two_pow_pos _)

theorem Magnitude.middle_lt_high (m : Magnitude) : m.middle < m.high :=
  Nat.mul_lt_mul_of_pos_right (by omega) (Nat.two_pow_pos _)

theorem Magnitude.covers_middle {m : Magnitude} (hm : m.significand ≠ 0) {den : Nat}
    (hden : 0 < den) : m.covers (m.middle * den) den = true :=
  m.covers_of_lt (Nat.mul_lt_mul_of_pos_right (m.low_lt_middle hm) hden)
    (Nat.mul_lt_mul_of_pos_right m.middle_lt_high hden)

/-- What is covered is an interval. -/
theorem Magnitude.covers_convex {m : Magnitude} {p q r den : Nat} (hp : m.covers p den = true)
    (hq : m.covers q den = true) (hpr : p ≤ r) (hrq : r ≤ q) : m.covers r den = true := by
  unfold Magnitude.covers at hp hq ⊢
  split at hp <;> simp only [Bool.and_eq_true, decide_eq_true_eq, *, if_true, if_false] at hp hq ⊢
  · omega
  · omega

theorem spacing_pos (s : Nat) : 0 < (spacing s).1 ∧ 0 < (spacing s).2 := by
  unfold spacing
  generalize 1076 = n
  exact ⟨Nat.mul_pos (Nat.two_pow_pos n) (Nat.pow_pos (by decide)), Nat.pow_pos (by decide)⟩

/-- **A grid has a point for a magnitude** if any of its points is covered: then
the one next to the middle on the same side is. -/
theorem Magnitude.exists_onGrid? {m : Magnitude} (hm : m.significand ≠ 0) {s k : Nat}
    (h : m.covers (k * (spacing s).1) (spacing s).2 = true) : ∃ d, m.onGrid? s = some d := by
  obtain ⟨hstep, hden⟩ := spacing_pos s
  unfold Magnitude.onGrid?
  generalize spacing s = grid at h hstep hden ⊢
  obtain ⟨step, den⟩ := grid
  dsimp only at h hstep hden ⊢
  have hmiddle := m.covers_middle hm hden
  have hbelow := Nat.div_mul_le_self (m.middle * den) step
  have habove := Nat.lt_div_mul_add hstep (a := m.middle * den)
  generalize m.middle * den / step = low at hbelow habove ⊢
  have hneighbour : m.covers (low * step) den = true ∨ m.covers ((low + 1) * step) den = true := by
    obtain hle | hlt := Nat.lt_or_ge low k
    · refine .inr (m.covers_convex hmiddle h ?_ (Nat.mul_le_mul_right step hle))
      rw [Nat.add_one_mul]
      exact habove.le
    · exact .inl (m.covers_convex h hmiddle (Nat.mul_le_mul_right step hlt) hbelow)
  cases hlow : m.covers (low * step) den <;> cases hhigh : m.covers ((low + 1) * step) den
  · rw [hlow, hhigh] at hneighbour
    simp at hneighbour
  · exact ⟨_, rfl⟩
  · exact ⟨_, rfl⟩
  · dsimp only
    split
    · exact ⟨_, rfl⟩
    · split <;> exact ⟨_, rfl⟩

/-- A grid with a spacing of at most 2⁻¹⁰⁷⁶ has a point for every magnitude but
zero. -/
theorem Magnitude.exists_onGrid?_of_fine {m : Magnitude} (hm : m.significand ≠ 0) {s : Nat}
    (hfine : (spacing s).1 ≤ (spacing s).2) : ∃ d, m.onGrid? s = some d := by
  obtain ⟨hstep, hden⟩ := spacing_pos s
  refine m.exists_onGrid? hm (k := m.middle * (spacing s).2 / (spacing s).1) ?_
  generalize spacing s = grid at hfine hstep hden ⊢
  obtain ⟨step, den⟩ := grid
  dsimp only at hfine hstep hden ⊢
  -- the grid point below the middle is nearer to it than `low`, for a step is short
  have hdiv := Nat.div_add_mod' (m.middle * den) step
  have hmod := Nat.mod_lt (m.middle * den) hstep
  have hlow := Nat.mul_le_mul_right den (Nat.succ_le_of_lt (m.low_lt_middle hm))
  have hhigh := Nat.mul_lt_mul_of_pos_right m.middle_lt_high hden
  rw [Nat.succ_mul] at hlow
  apply Magnitude.covers_of_lt <;> omega

/-- A grid point as a fraction. -/
theorem Magnitude.covers_digits {m : Magnitude} {s d : Nat} (h : m.onGrid? s = some d) :
    m.covers (4 * ((Digits.mk d (s - (unitGrid : Int))).numerator * Nat.pow 2 1074))
      (Digits.mk d (s - (unitGrid : Int))).denominator = true := by
  have hcovers := m.covers_of_onGrid? h
  have hquarters : Nat.pow 2 1076 = 4 * Nat.pow 2 1074 := by decide +kernel
  unfold spacing at hcovers
  unfold Digits.numerator Digits.denominator
  dsimp only at hcovers ⊢
  rw [neg_sub, Int.toNat_sub, Int.toNat_sub]
  rw [hquarters] at hcovers
  generalize Nat.pow 2 1074 = unit at hcovers ⊢
  rw [Nat.pow_eq, Nat.pow_eq] at hcovers
  have hpoint : 4 * (d * 10 ^ (s - unitGrid) * unit) = d * (4 * unit * 10 ^ (s - unitGrid)) := by
    ring
  rwa [hpoint]

/-- **The search** ends on the coarsest grid that has a point for the magnitude. -/
theorem Magnitude.exists_grid {m : Magnitude} (hm : m.significand ≠ 0) (s : Nat) :
    ∃ t d : Nat, m.shortestFrom s = ⟨d, t - (unitGrid : Int)⟩ ∧ m.onGrid? t = some d
      ∧ ∀ u, t < u → u ≤ s → m.onGrid? u = none := by
  induction s with
  | zero =>
    obtain ⟨d, hd⟩ := m.exists_onGrid?_of_fine hm (s := 0) (by decide +kernel)
    refine ⟨0, d, ?_, hd, fun u hu hle => absurd hu (by omega)⟩
    rw [Magnitude.shortestFrom, hd]
    rfl
  | succ s ih =>
    unfold Magnitude.shortestFrom
    split
    · next d hd => exact ⟨s + 1, d, rfl, hd, fun u hu hle => absurd hu (by omega)⟩
    · next hnone =>
      obtain ⟨t, d, hfound, hd, hcoarser⟩ := ih
      refine ⟨t, d, hfound, hd, fun u hu hle => ?_⟩
      rcases Nat.lt_or_eq_of_le hle with hlt | rfl
      · exact hcoarser u hu (Nat.le_of_lt_succ hlt)
      · exact hnone

/-- The digits found are covered, on whichever grid the search begins. -/
theorem Magnitude.covers_shortestFrom {m : Magnitude} (hm : m.significand ≠ 0) (s : Nat) :
    m.covers (4 * ((m.shortestFrom s).numerator * Nat.pow 2 1074))
      (m.shortestFrom s).denominator = true := by
  obtain ⟨t, d, hfound, hd, -⟩ := m.exists_grid hm s
  rw [hfound]
  exact m.covers_digits hd

theorem Magnitude.covers_shortest (m : Magnitude) :
    m.covers (4 * (m.shortest.numerator * Nat.pow 2 1074)) m.shortest.denominator = true := by
  unfold Magnitude.shortest
  split
  · next hzero =>
    -- zero is its own digits
    unfold Digits.numerator Magnitude.covers Magnitude.low
    rw [hzero]
    generalize Nat.pow 2 1074 = unit
    simp
  · next hpos => exact m.covers_shortestFrom hpos _

/-- The digits of a magnitude are rounded to it. -/
theorem Magnitude.bits_nearest_shortest {m : Magnitude} (hm : m.IsCanonical) :
    (nearestMagnitude m.shortest.numerator m.shortest.denominator).bits = m.bits :=
  bits_nearestMagnitude hm (Digits.denominator_pos _) m.covers_shortest

/-! ## §2. The text is that fraction. -/

/-- The fraction that a numeral denotes: all its digits, over a power of ten
for those behind the point. -/
def numeratorOf (cs : List Char) : Nat :=
  Nat.ofDigitChars 10 (cs.takeWhile (· ≠ '.')
    ++ cs.drop ((cs.takeWhile (· ≠ '.')).length + 1)) 0

def denominatorOf (cs : List Char) : Nat :=
  Nat.pow 10 (cs.drop ((cs.takeWhile (· ≠ '.')).length + 1)).length

/-- A numeral is read as the double nearest to its fraction. -/
theorem readNumeral_eq (cs : List Char) :
    readNumeral cs = nearest (numeratorOf cs) (denominatorOf cs) := rfl

theorem ne_point_of_isDigit {c : Char} (hc : c.isDigit) : decide (c ≠ '.') = true := by
  apply decide_eq_true
  rintro rfl
  cases hc

/-- The fraction of a whole number. -/
theorem fraction_whole {whole : List Char} (hwhole : ∀ c ∈ whole, c.isDigit) :
    numeratorOf whole = Nat.ofDigitChars 10 whole 0 ∧ denominatorOf whole = 1 := by
  have htake : whole.takeWhile (· ≠ '.') = whole := by
    rw [List.takeWhile_eq_self_iff]
    exact fun c hc => ne_point_of_isDigit (hwhole c hc)
  have hdrop : whole.drop (whole.length + 1) = [] :=
    List.drop_of_length_le (Nat.le_succ _)
  unfold numeratorOf denominatorOf
  rw [htake, hdrop, List.append_nil]
  exact ⟨rfl, rfl⟩

/-- The fraction of a numeral with a point. -/
theorem fraction_point {whole : List Char} (hwhole : ∀ c ∈ whole, c.isDigit)
    (fraction : List Char) :
    numeratorOf (whole ++ '.' :: fraction) = Nat.ofDigitChars 10 (whole ++ fraction) 0
      ∧ denominatorOf (whole ++ '.' :: fraction) = 10 ^ fraction.length := by
  have htake : (whole ++ '.' :: fraction).takeWhile (· ≠ '.') = whole := by
    rw [List.takeWhile_append_of_pos (fun c hc => ne_point_of_isDigit (hwhole c hc)),
      List.takeWhile_cons_of_neg (by simp), List.append_nil]
  have hdrop : (whole ++ '.' :: fraction).drop (whole.length + 1) = fraction := by
    rw [List.drop_append]
    simp
  unfold numeratorOf denominatorOf
  rw [htake, hdrop]
  exact ⟨rfl, rfl⟩

theorem Digits.isDigit_chars (d : Digits) : ∀ c ∈ d.chars, c.isDigit := by
  intro c hc
  exact Nat.isDigit_of_mem_toDigits (by decide) (by decide) hc

theorem Digits.isDigit_replicate (n : Nat) : ∀ c ∈ List.replicate n '0', c.isDigit := by
  intro c hc
  rw [List.eq_of_mem_replicate hc]
  rfl

theorem Digits.value_chars (d : Digits) : Nat.ofDigitChars 10 d.chars 0 = d.digits :=
  Nat.ofDigitChars_ten_toDigits

/-- **The digits written out** denote the digits. -/
theorem Digits.fraction_positional (d : Digits) :
    numeratorOf d.positional = d.numerator ∧ denominatorOf d.positional = d.denominator := by
  unfold Digits.positional Digits.numerator Digits.denominator
  dsimp only
  split
  · next hwhole =>
    -- all digits stand in front of the point
    have hdigits : ∀ c ∈ d.chars ++ List.replicate d.exponent.toNat '0', c.isDigit :=
      List.forall_mem_append.2 ⟨d.isDigit_chars, Digits.isDigit_replicate _⟩
    obtain ⟨hnum, hden⟩ := fraction_whole hdigits
    rw [hnum, hden, Nat.ofDigitChars_append, d.value_chars, Nat.ofDigitChars_replicate_zero]
    refine ⟨Nat.mul_comm _ _, ?_⟩
    rw [show (-d.exponent).toNat = 0 by omega, Nat.pow_zero]
  · next hfraction =>
    have hnum : d.digits * 10 ^ d.exponent.toNat = d.digits := by
      rw [show d.exponent.toNat = 0 by omega, Nat.pow_zero, Nat.mul_one]
    rw [hnum]
    split
    · next hplaces =>
      -- the point stands between two digits
      obtain ⟨hnum, hden⟩ := fraction_point
        (fun c hc => d.isDigit_chars c (List.mem_of_mem_take hc))
        (d.chars.drop (d.chars.length - (-d.exponent).toNat))
      rw [hnum, hden, List.take_append_drop, d.value_chars, List.length_drop,
        Nat.sub_sub_self (Nat.le_of_lt hplaces)]
      exact ⟨rfl, rfl⟩
    · next hplaces =>
      -- zeros fill the places behind the point
      have hzero : ∀ c ∈ ['0'], c.isDigit := by simp
      obtain ⟨hnum, hden⟩ := fraction_point hzero
        (List.replicate ((-d.exponent).toNat - d.chars.length) '0' ++ d.chars)
      have hlength : (-d.exponent).toNat - d.chars.length + d.chars.length
          = (-d.exponent).toNat := by omega
      show numeratorOf (['0'] ++ '.' :: (_ ++ d.chars)) = _
        ∧ denominatorOf (['0'] ++ '.' :: (_ ++ d.chars)) = _
      rw [hnum, hden, Nat.ofDigitChars_append, Nat.ofDigitChars_append,
        Nat.ofDigitChars_replicate_zero, List.length_append, List.length_replicate, hlength]
      exact ⟨d.value_chars, rfl⟩

/-! ## §3. The number of a text. -/

theorem magnitude_bits (x : Float) : (magnitude x).bits = unsignedBits x :=
  Magnitude.bits_ofBits _

/-- **Reading back.**  The bits of a finite double are those nearest to the
fraction that its digits denote. -/
theorem bits_nearest_positional (x : Float) :
    (nearestMagnitude (numeratorOf (magnitude x).shortest.positional)
      (denominatorOf (magnitude x).shortest.positional)).bits = unsignedBits x := by
  obtain ⟨hnum, hden⟩ := (magnitude x).shortest.fraction_positional
  have hcanonical : (magnitude x).IsCanonical := Magnitude.isCanonical_ofBits _
  rw [hnum, hden, Magnitude.bits_nearest_shortest hcanonical, magnitude_bits]

/-- The text of a number without its sign. -/
def unsignedText (x : Float) : List Char :=
  if isInfinite x then ['i', 'n', 'f'] else (magnitude x).shortest.positional

theorem toList_displayNumber {x : Float} (hx : isUndefined x = false) :
    (displayNumber x).toList = sign x ++ unsignedText x := by
  unfold displayNumber unsignedText
  rw [hx]
  split
  · next h => cases h
  · split <;> exact String.toList_ofList

/-- A numeral is made of digits and perhaps a point. -/
theorem Digits.isDigit_or_point (d : Digits) : ∀ c ∈ d.positional, c.isDigit ∨ c = '.' := by
  have hzeros : ∀ n, ∀ c ∈ List.replicate n '0', c.isDigit ∨ c = '.' :=
    fun n c hc => .inl (Digits.isDigit_replicate n c hc)
  have hchars : ∀ c ∈ d.chars, c.isDigit ∨ c = '.' := fun c hc => .inl (d.isDigit_chars c hc)
  unfold Digits.positional
  dsimp only
  split
  · exact List.forall_mem_append.2 ⟨hchars, hzeros _⟩
  · split
    · refine List.forall_mem_append.2 ⟨?_, List.forall_mem_cons.2 ⟨.inr rfl, ?_⟩⟩
      · exact fun c hc => hchars c (List.mem_of_mem_take hc)
      · exact fun c hc => hchars c (List.mem_of_mem_drop hc)
    · refine List.forall_mem_append.2 ⟨?_, hchars⟩
      exact List.forall_mem_cons.2 ⟨.inl rfl, List.forall_mem_cons.2 ⟨.inr rfl, hzeros _⟩⟩

theorem mem_unsignedText {x : Float} {c : Char} (hc : c ∈ unsignedText x) :
    c.isDigit ∨ c = '.' ∨ isInfinite x ∧ c ∈ ['i', 'n', 'f'] := by
  unfold unsignedText at hc
  split at hc
  · next hinf => exact .inr (.inr ⟨hinf, hc⟩)
  · exact ((magnitude x).shortest.isDigit_or_point c hc).imp_right .inl

/-- Two doubles with the same sign and the same unsigned bits are one. -/
theorem eq_of_bits {x y : Float} (hsign : isNegative x = isNegative y)
    (hbits : unsignedBits x = unsignedBits y) : x = y := by
  have heq : x.toBits = y.toBits := by
    have hx := x.toBits.toNat_lt
    have hy := y.toBits.toNat_lt
    unfold isNegative at hsign
    unfold unsignedBits at hbits
    simp only [Nat.pow_eq, decide_eq_decide] at hsign hbits
    exact UInt64.toNat_inj.1 (by omega)
  obtain ⟨⟨a, ha⟩⟩ := x
  obtain ⟨⟨b, hb⟩⟩ := y
  obtain rfl : a = b := heq
  rfl

/-- The sign is told from the rest. -/
theorem eq_of_sign_append {x y : Float} (h : sign x ++ unsignedText x = sign y ++ unsignedText y) :
    isNegative x = isNegative y ∧ unsignedText x = unsignedText y := by
  have hno : ∀ z : Float, '-' ∉ unsignedText z := by
    intro z hmem
    rcases mem_unsignedText hmem with h | h | ⟨-, h⟩ <;> revert h <;> decide
  unfold sign at h
  cases hx : isNegative x <;> cases hy : isNegative y <;> rw [hx, hy] at h
  · exact ⟨rfl, h⟩
  · have hmem : '-' ∈ unsignedText x := by
      rw [show unsignedText x = '-' :: unsignedText y from h]
      exact List.mem_cons_self
    exact absurd hmem (hno x)
  · have hmem : '-' ∈ unsignedText y := by
      rw [show unsignedText y = '-' :: unsignedText x from h.symm]
      exact List.mem_cons_self
    exact absurd hmem (hno y)
  · exact ⟨rfl, (List.cons.inj h).2⟩

/-- The text without sign determines the bits without sign. -/
theorem unsignedBits_eq {x y : Float} (h : unsignedText x = unsignedText y) :
    unsignedBits x = unsignedBits y := by
  have hinf : ∀ z : Float, isInfinite z = true ↔ 'i' ∈ unsignedText z := by
    intro z
    constructor
    · intro hz
      unfold unsignedText
      rw [if_pos hz]
      decide
    · intro hmem
      rcases mem_unsignedText hmem with hdigit | hpoint | ⟨hz, -⟩
      · cases hdigit
      · exact absurd hpoint (by decide)
      · exact hz
  by_cases hx : isInfinite x = true
  · have hy : isInfinite y = true := by rw [hinf, ← h, ← hinf]; exact hx
    exact (of_decide_eq_true hx).trans (of_decide_eq_true hy).symm
  · have hy : ¬ isInfinite y = true := by rw [hinf, ← h, ← hinf]; exact hx
    unfold unsignedText at h
    rw [if_neg hx, if_neg hy] at h
    rw [← bits_nearest_positional x, h, bits_nearest_positional y]

/-- There is one double that is no number. -/
theorem eq_of_isUndefined {x y : Float} (hx : isUndefined x = true) (hy : isUndefined y = true) :
    x = y := by
  -- a double with all bits of its exponent set and a fraction has one pattern
  have hcanonical : ∀ z : Float, isUndefined z = true →
      z.toBits.toBitVec = Float.Model.UnpackedFloat.packedNaN .binary64 := by
    intro z hz
    have hlt : 0x7ff * 2 ^ 52 < z.toModel.toBits.toNat % 2 ^ 63 := of_decide_eq_true hz
    have hexponent : (@Float.Model.UnpackedFloat.unpackExponent .binary64
        z.toModel.toBits.toBitVec).toNat = z.toModel.toBits.toNat / 2 ^ 52 % 2 ^ 11 := by
      simp [Float.Model.UnpackedFloat.unpackExponent, BitVec.extractLsb_toNat,
        Nat.shiftRight_eq_div_pow]
    have hmantissa : (@Float.Model.UnpackedFloat.unpackMantissa .binary64
        z.toModel.toBits.toBitVec).toNat = z.toModel.toBits.toNat % 2 ^ 52 := by
      simp [Float.Model.UnpackedFloat.unpackMantissa, BitVec.extractLsb_toNat]
    refine z.toModel.valid.eq_packedNaN ?_ ?_
    · apply BitVec.eq_of_toNat_eq
      rw [hexponent]
      show _ = 2 ^ 11 - 1
      omega
    · intro hzero
      rw [hzero] at hmantissa
      have : 0 = z.toModel.toBits.toNat % 2 ^ 52 := hmantissa
      omega
  obtain ⟨⟨a, ha⟩⟩ := x
  obtain ⟨⟨b, hb⟩⟩ := y
  obtain rfl : a = b := UInt64.toBitVec_inj.1 ((hcanonical _ hx).trans (hcanonical _ hy).symm)
  rfl

/-- **THE DISPLAY FORM OF A NUMBER DETERMINES IT**, the sign of a zero
included. -/
theorem displayNumber_injective : Function.Injective displayNumber := by
  have hno : ∀ z : Float, isUndefined z = false → 'N' ∉ (displayNumber z).toList := by
    intro z hz hmem
    rw [toList_displayNumber hz, List.mem_append] at hmem
    rcases hmem with hmem | hmem
    · unfold sign at hmem
      split at hmem <;> simp at hmem
    · rcases mem_unsignedText hmem with h | h | ⟨-, h⟩ <;> revert h <;> decide
  have hundefined : ∀ z : Float, isUndefined z = true → displayNumber z = "NaN" :=
    fun z hz => if_pos hz
  intro x y hxy
  cases hx : isUndefined x with
  | true =>
    cases hy : isUndefined y with
    | true => exact eq_of_isUndefined hx hy
    | false =>
      refine absurd ?_ (hno y hy)
      rw [← hxy, hundefined x hx]
      decide
  | false =>
    cases hy : isUndefined y with
    | true =>
      refine absurd ?_ (hno x hx)
      rw [hxy, hundefined y hy]
      decide
    | false =>
      have htext := congrArg String.toList hxy
      rw [toList_displayNumber hx, toList_displayNumber hy] at htext
      obtain ⟨hneg, hunsigned⟩ := eq_of_sign_append htext
      exact eq_of_bits hneg (unsignedBits_eq hunsigned)

end LoxScript.Decimal
