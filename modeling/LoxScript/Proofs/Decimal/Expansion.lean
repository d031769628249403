/-
  LoxScript.Proofs.Decimal.Expansion
  ────────────────────────────────
  The display form of a number is its debug form, written out.

  Both forms denote the same rational number, and the display form does so
  without an exponent and without a superfluous zero at either end: it is the
  debug form in all its places, less a `.0`.

      debug form      1.0     0.1     1e+17                 1.5e-05
      display form    1       0.1     100000000000000000    0.000015

  A number is displayed with a fraction exactly if it has one, and what is
  displayed of a positive number is scanned as one token that holds it.
-/
import LoxScript.Proofs.Decimal.Forms
import LoxScript.Proofs.Scan.Layout

namespace LoxScript.Decimal

/-! ## §1. The forms of a double. -/

theorem Magnitude.isReduced_shortest (m : Magnitude) : m.shortest.IsReduced := by
  by_cases hm : m.significand = 0
  · rw [Magnitude.shortest, if_pos hm]
    exact ⟨fun _ => rfl, fun h => absurd h (by decide)⟩
  · refine ⟨fun hzero => ?_, Magnitude.digits_mod_ten hm⟩
    obtain ⟨t, d, hfound, -, hpos, -⟩ := Magnitude.exists_coarsest hm
    rw [hfound] at hzero
    exact absurd hzero (Nat.ne_of_gt hpos)

/-- A double that is neither infinite nor no number. -/
def IsFinite (x : Float) : Prop := unsignedBits x < infinityBits

theorem IsFinite.isUndefined_eq {x : Float} (h : IsFinite x) : isUndefined x = false :=
  decide_eq_false (Nat.lt_asymm h)

theorem IsFinite.isInfinite_eq {x : Float} (h : IsFinite x) : isInfinite x = false :=
  decide_eq_false (Nat.ne_of_lt h)

theorem IsFinite.toList_displayNumber {x : Float} (h : IsFinite x) :
    (displayNumber x).toList = sign x ++ (magnitude x).shortest.positional := by
  rw [Decimal.toList_displayNumber h.isUndefined_eq, unsignedText, h.isInfinite_eq,
    if_neg Bool.false_ne_true]

theorem IsFinite.toList_debugNumber {x : Float} (h : IsFinite x) :
    (debugNumber x).toList = sign x ++ (magnitude x).shortest.debug := by
  unfold debugNumber
  rw [h.isUndefined_eq, h.isInfinite_eq]
  exact String.toList_ofList

theorem IsExpansion.head?_isDigit {cs : List Char} (h : IsExpansion cs) :
    ∀ c ∈ cs.head?, c.isDigit := by
  cases h with
  | whole hds => exact fun c hc => hds.isDigit c (List.mem_of_mem_head? hc)
  | fraction hds _ _ _ =>
    rw [List.head?_append_of_ne_nil _ hds.ne_nil]
    exact fun c hc => hds.isDigit c (List.mem_of_mem_head? hc)

theorem IsDebugForm.head?_isDigit {cs : List Char} (h : IsDebugForm cs) :
    ∀ c ∈ cs.head?, c.isDigit := by
  cases h with
  | point hne _ hds _ =>
    rw [List.head?_append_of_ne_nil _ hne]
    exact fun c hc => hds c (List.mem_of_mem_head? hc)
  | digit hc _ | digits hc _ _ _ =>
    rintro d hd
    rw [← Option.some.inj hd]
    exact hc

theorem rationalOf_sign_append (x : Float) {cs : List Char} (h : ∀ c ∈ cs.head?, c.isDigit) :
    rationalOf (sign x ++ cs) = (if isNegative x then -1 else 1) * unsignedRational cs := by
  unfold sign
  split
  · exact (neg_one_mul _).symm
  · rw [List.nil_append, one_mul]
    unfold rationalOf
    split
    · exact absurd (h '-' rfl) (by decide)
    · rfl

theorem expanded_sign_append (x : Float) {cs : List Char} (h : ∀ c ∈ cs.head?, c.isDigit) :
    expanded (sign x ++ cs) = sign x ++ (decimalOf cs).positional := by
  unfold sign
  split
  · rfl
  · rw [List.nil_append, List.nil_append]
    unfold expanded
    split
    · exact absurd (h '-' rfl) (by decide)
    · rfl

theorem point_not_mem_sign (x : Float) : '.' ∉ sign x := by
  unfold sign
  split <;> decide

/-- The rational number that a finite double is. -/
def exactValue (x : Float) : ℚ :=
  (if isNegative x then -1 else 1)
    * (((magnitude x).significand * 2 ^ (magnitude x).shift : Nat) / (2 ^ 1074 : Nat))

theorem exists_int_iff {a b : Nat} (hb : b ≠ 0) : (∃ n : Int, (a / b : ℚ) = n) ↔ b ∣ a := by
  have hpos : (b : ℚ) ≠ 0 := Nat.cast_ne_zero.2 hb
  constructor
  · rintro ⟨n, hn⟩
    rw [div_eq_iff hpos] at hn
    have hint : (a : Int) = n * b := by exact_mod_cast hn
    exact Int.natCast_dvd_natCast.1 ⟨n, by rw [hint, mul_comm]⟩
  · rintro ⟨k, rfl⟩
    refine ⟨k, ?_⟩
    push_cast
    field_simp

theorem exactValue_isInt_iff (x : Float) :
    (∃ n : Int, exactValue x = n) ↔ (magnitude x).IsWhole := by
  unfold exactValue Magnitude.IsWhole
  rw [← exists_int_iff (Nat.ne_of_gt (Nat.two_pow_pos 1074))]
  generalize 1074 = places
  split
  · constructor
    · rintro ⟨n, hn⟩
      exact ⟨-n, by rw [Int.cast_neg, ← hn, neg_one_mul, neg_neg]⟩
    · rintro ⟨n, hn⟩
      exact ⟨-n, by rw [hn, Int.cast_neg, neg_one_mul]⟩
  · rw [one_mul]

/-! ## §2. Reading back. -/

theorem Digits.rational_nonneg (d : Digits) : 0 ≤ d.rational :=
  mul_nonneg (Nat.cast_nonneg _) (zpow_nonneg (by norm_num) _)

/-- Whatever fraction the digits are written as, it is rounded to the double. -/
theorem bits_nearest_of_rational (x : Float) {num den : Nat} (hden : 0 < den)
    (h : (magnitude x).shortest.rational = num / den) :
    (nearestMagnitude num den).bits = unsignedBits x := by
  rw [← magnitude_bits]
  have hcanonical : (magnitude x).IsCanonical := Magnitude.isCanonical_ofBits _
  generalize magnitude x = m at h hcanonical ⊢
  refine bits_nearestMagnitude hcanonical hden ?_
  have hpos := m.shortest.denominator_pos
  have hcovers := m.covers_shortest
  rw [← m.shortest.fraction_eq,
    div_eq_div_iff (Nat.cast_ne_zero.2 (Nat.ne_of_gt hpos))
      (Nat.cast_ne_zero.2 (Nat.ne_of_gt hden))] at h
  have hcross : m.shortest.numerator * den = num * m.shortest.denominator := by exact_mod_cast h
  generalize Nat.pow 2 1074 = unit at hcovers ⊢
  have hpoint : 4 * (num * unit) * m.shortest.denominator
      = 4 * (m.shortest.numerator * unit) * den := by
    linear_combination (4 * unit) * hcross.symm
  rw [← Magnitude.covers_mul hpos, hpoint, Nat.mul_comm den, Magnitude.covers_mul hden]
  exact hcovers

theorem readNumeral_positional {x : Float} (hx : IsFinite x) (hsign : isNegative x = false) :
    readNumeral (magnitude x).shortest.positional = x := by
  have hbits : unsignedBits x = x.toBits.toNat :=
    Nat.mod_eq_of_lt (Nat.lt_of_not_le (of_decide_eq_false hsign))
  rw [readNumeral_eq, nearest, bits_nearest_positional, Nat.min_eq_left (Nat.le_of_lt hx), hbits,
    UInt64.ofNat_toNat, Float.ofBits_toBits]

theorem IsExpansion.isLexeme {cs : List Char} (h : IsExpansion cs) :
    IsLexeme cs .number (.number (readNumeral cs)) := by
  cases h with
  | whole hds => exact .whole hds.ne_nil hds.isDigit
  | fraction hds hne hfs _ => exact .fraction hds.ne_nil hne hds.isDigit hfs

/-- The display form of a positive number is scanned as one token that holds it. -/
theorem tokensOf_displayNumber {x : Float} (hx : IsFinite x) (hsign : isNegative x = false) :
    tokensOf (displayNumber x)
      = .ok [⟨.number, displayNumber x, .number x, 1⟩, endToken 1] := by
  have hlexeme := (magnitude x).isReduced_shortest.isExpansion.isLexeme
  have htext : displayNumber x = String.ofList (magnitude x).shortest.positional := by
    rw [← String.toList_inj, hx.toList_displayNumber, String.toList_ofList, sign, hsign,
      if_neg Bool.false_ne_true, List.nil_append]
  have hbreaks : Text.breaks (magnitude x).shortest.positional = 0 := by
    refine List.count_eq_zero.2 fun hmem => ?_
    exact absurd (Digits.isDigit_or_point _ _ hmem) (by decide)
  rw [htext, tokensOf_lexeme hlexeme, hbreaks, ← hlexeme.literal_eq,
    readNumeral_positional hx hsign]
  rfl

/-! ## §3. Display forms. -/

/-- The display form of a finite double and its debug form.  The one is the
other written out, both denote one rational number, and that one is rounded to
the double. -/
structure Expands (x : Float) : Prop where
  form : ∃ cs, (displayNumber x).toList = sign x ++ cs ∧ IsExpansion cs
  debugForm : ∃ cs, (debugNumber x).toList = sign x ++ cs ∧ IsDebugForm cs
  expansion : (displayNumber x).toList = withoutPointZero (expanded (debugNumber x).toList)
  rational : rationalOf (displayNumber x).toList = rationalOf (debugNumber x).toList
  rounds : ∀ num den : Nat, 0 < den → |rationalOf (debugNumber x).toList| = num / den →
    (nearestMagnitude num den).bits = unsignedBits x
  fraction : '.' ∈ (displayNumber x).toList ↔ ¬ ∃ n : Int, exactValue x = n

theorem IsFinite.expands {x : Float} (hx : IsFinite x) : Expands x := by
  have hreduced := (magnitude x).isReduced_shortest
  have hdisplay : rationalOf (displayNumber x).toList
      = (if isNegative x then -1 else 1) * (magnitude x).shortest.rational := by
    rw [hx.toList_displayNumber, rationalOf_sign_append x hreduced.isExpansion.head?_isDigit,
      Digits.unsignedRational_positional]
  have hdebug : rationalOf (debugNumber x).toList
      = (if isNegative x then -1 else 1) * (magnitude x).shortest.rational := by
    rw [hx.toList_debugNumber, rationalOf_sign_append x hreduced.isDebugForm.head?_isDigit,
      Digits.unsignedRational_debug hreduced]
  refine ⟨⟨_, hx.toList_displayNumber, hreduced.isExpansion⟩,
    ⟨_, hx.toList_debugNumber, hreduced.isDebugForm⟩, ?_, hdisplay.trans hdebug.symm, ?_, ?_⟩
  · rw [hx.toList_displayNumber, hx.toList_debugNumber,
      expanded_sign_append x hreduced.isDebugForm.head?_isDigit,
      hreduced.withoutPointZero_debug (point_not_mem_sign x)]
  · intro num den hden hfraction
    refine bits_nearest_of_rational x hden ?_
    rw [← hfraction, hdebug, abs_mul, abs_of_nonneg (Digits.rational_nonneg _)]
    split <;> simp
  · rw [hx.toList_displayNumber, List.mem_append, or_iff_right (point_not_mem_sign x),
      hreduced.mem_positional_iff, exactValue_isInt_iff, ← Magnitude.exponent_nonneg_iff,
      Int.not_le]

/-- **THE DISPLAY FORM OF A NUMBER** is an exact, canonical and readable
expansion.  Of a finite double it denotes what the debug form denotes; doubles
that are displayed alike are one; and of a finite double without a sign it is
scanned as that double. -/
theorem displayNumber_expands :
    (∀ x, IsFinite x → Expands x)
      ∧ Set.InjOn displayNumber {x | isUndefined x = false}
      ∧ ∀ x, IsFinite x → isNegative x = false →
        tokensOf (displayNumber x)
          = .ok [⟨.number, displayNumber x, .number x, 1⟩, endToken 1] :=
  ⟨fun _ hx => hx.expands, displayNumber_injective.injOn,
    fun _ hx hsign => tokensOf_displayNumber hx hsign⟩

/-- The double next to 10²³, which is none itself. -/
def besideTenTo23 : Float := Float.ofBits 0x44b52d02c7e14af6

/-- It is displayed as 10²³, in 24 digits and without its exponent. -/
theorem displayNumber_expands_beside :
    IsFinite besideTenTo23
      ∧ isNegative besideTenTo23 = false
      ∧ displayNumber besideTenTo23 = "100000000000000000000000"
      ∧ debugNumber besideTenTo23 = "1e+23"
      ∧ Expands besideTenTo23
      ∧ tokensOf (displayNumber besideTenTo23)
        = .ok [⟨.number, displayNumber besideTenTo23, .number besideTenTo23, 1⟩, endToken 1] := by
  have hfinite : IsFinite besideTenTo23 := by
    unfold IsFinite
    decide +kernel
  have hsign : isNegative besideTenTo23 = false := by
    decide +kernel
  exact ⟨hfinite, hsign, by decide +kernel, by decide +kernel,
    displayNumber_expands.1 _ hfinite, displayNumber_expands.2.2 _ hfinite hsign⟩

end LoxScript.Decimal
