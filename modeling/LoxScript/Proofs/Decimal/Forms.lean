/-
  LoxScript.Proofs.Decimal.Forms
  ────────────────────────────────
  Digits as text, with and without an exponent.

  A text has a decimal number, in the places that it shows (`decimalOf`).  The
  debug form of digits has their number again, and if that is written out, a
  `.0` may be left at its end.  Without it (`withoutPointZero`) the text is
  what the digits are displayed as.

      digits        ⟨1, 0⟩     ⟨1, 17⟩                  ⟨15, -6⟩
      debug form    1.0        1e+17                    1.5e-05
      its number    ⟨10, -1⟩   ⟨1, 17⟩                  ⟨15, -6⟩
      written out   1.0        100000000000000000       0.000015
-/
import LoxScript.Proofs.Decimal.Grids

namespace LoxScript.Decimal

/-! ## §1. Forms. -/

/-- Digits before a point: no zero stands in front of others. -/
structure IsWholePart (ds : List Char) : Prop where
  ne_nil : ds ≠ []
  isDigit : ∀ c ∈ ds, c.isDigit
  zero : ds.head? = some '0' → ds = ['0']

/-- A text `digits` or `digits.digits` without a superfluous zero. -/
inductive IsExpansion : List Char → Prop where
  | whole {ds : List Char} : IsWholePart ds → IsExpansion ds
  | fraction {ds fs : List Char} : IsWholePart ds → fs ≠ [] → (∀ c ∈ fs, c.isDigit) →
      fs.getLast? ≠ some '0' → IsExpansion (ds ++ '.' :: fs)

/-- A signed exponent of at least two digits. -/
inductive IsExponent : List Char → Prop where
  | signed {mark : Char} {es : List Char} : mark ∈ ['+', '-'] → 2 ≤ es.length →
      (∀ c ∈ es, c.isDigit) → IsExponent ('e' :: mark :: es)

/-- A text `digits.digits`, or one digit and perhaps a fraction before an
exponent. -/
inductive IsDebugForm : List Char → Prop where
  | point {ds fs : List Char} : ds ≠ [] → fs ≠ [] → (∀ c ∈ ds, c.isDigit) →
      (∀ c ∈ fs, c.isDigit) → IsDebugForm (ds ++ '.' :: fs)
  | digit {c : Char} {tail : List Char} : c.isDigit → IsExponent tail → IsDebugForm (c :: tail)
  | digits {c : Char} {fs tail : List Char} : c.isDigit → fs ≠ [] → (∀ d ∈ fs, d.isDigit) →
      IsExponent tail → IsDebugForm (c :: '.' :: fs ++ tail)

/-! ## §2. Digits of a number. -/

theorem digitChar_ne_zero {n : Nat} (hn : n < 10) (hpos : 0 < n) : n.digitChar ≠ '0' := by
  interval_cases n <;> decide

/-- The first digit of a positive number is no zero. -/
theorem head?_toDigits_ne {n : Nat} (hn : 0 < n) : (Nat.toDigits 10 n).head? ≠ some '0' := by
  induction n using Nat.strong_induction_on with
  | _ n ih =>
    obtain hlt | hle := Nat.lt_or_ge n 10
    · rw [Nat.toDigits_of_lt_base hlt, List.head?_singleton, ne_eq, Option.some.injEq]
      exact digitChar_ne_zero hlt hn
    · rw [Nat.toDigits_of_base_le (by decide) hle,
        List.head?_append_of_ne_nil _ Nat.toDigits_ne_nil]
      exact ih (n / 10) (Nat.div_lt_self hn (by decide)) (Nat.div_pos hle (by decide))

theorem getLast?_toDigits (n : Nat) : (Nat.toDigits 10 n).getLast? = some (n % 10).digitChar := by
  obtain hlt | hle := Nat.lt_or_ge n 10
  · rw [Nat.toDigits_of_lt_base hlt, Nat.mod_eq_of_lt hlt]
    rfl
  · rw [Nat.toDigits_of_base_le (by decide) hle, List.getLast?_concat]

namespace Digits

variable {d : Digits}

/-- Digits without a superfluous zero. -/
structure IsReduced (d : Digits) : Prop where
  zero : d.digits = 0 → d.exponent = 0
  last : d.exponent < 0 → d.digits % 10 ≠ 0

theorem chars_ne_nil (d : Digits) : d.chars ≠ [] := Nat.toDigits_ne_nil

theorem head?_chars_ne (h : d.digits ≠ 0) : d.chars.head? ≠ some '0' :=
  head?_toDigits_ne (Nat.pos_of_ne_zero h)

theorem getLast?_chars_ne (h : d.digits % 10 ≠ 0) : d.chars.getLast? ≠ some '0' := by
  rw [chars, getLast?_toDigits, ne_eq, Option.some.injEq]
  exact digitChar_ne_zero (Nat.mod_lt _ (by decide)) (Nat.pos_of_ne_zero h)

theorem isWholePart_zero : IsWholePart ['0'] := ⟨by simp, by simp, fun _ => rfl⟩

/-- Whole numbers are written without a point. -/
theorem IsReduced.whole (hd : d.IsReduced) (h : 0 ≤ d.exponent) : IsWholePart d.positional := by
  unfold positional
  dsimp only
  rw [if_pos h]
  by_cases hzero : d.digits = 0
  · rw [hd.zero hzero, chars, hzero]
    exact isWholePart_zero
  · refine ⟨List.append_ne_nil_of_left_ne_nil d.chars_ne_nil _,
      List.forall_mem_append.2 ⟨d.isDigit_chars, isDigit_replicate _⟩, fun hhead => ?_⟩
    rw [List.head?_append_of_ne_nil _ d.chars_ne_nil] at hhead
    exact absurd hhead (head?_chars_ne hzero)

/-- Other numbers are written with a fraction that no zero ends. -/
theorem IsReduced.fraction (hd : d.IsReduced) (h : d.exponent < 0) :
    ∃ ds fs, d.positional = ds ++ '.' :: fs ∧ IsWholePart ds ∧ fs ≠ [] ∧ (∀ c ∈ fs, c.isDigit)
      ∧ fs.getLast? ≠ some '0' := by
  have hlast := getLast?_chars_ne (hd.last h)
  have hpos : d.digits ≠ 0 := by
    intro hzero
    rw [hd.zero hzero] at h
    exact absurd h (by decide)
  unfold positional
  dsimp only
  rw [if_neg (Int.not_le.2 h)]
  have hplaces : 0 < (-d.exponent).toNat := by omega
  generalize (-d.exponent).toNat = places at hplaces
  split
  · next hlt =>
    -- the point stands between two digits
    refine ⟨_, _, rfl, ⟨?_, ?_, ?_⟩, ?_, ?_, ?_⟩
    · rw [← List.length_pos_iff, List.length_take]
      omega
    · exact fun c hc => d.isDigit_chars c (List.mem_of_mem_take hc)
    · rw [List.head?_take, if_neg (by omega)]
      exact fun hhead => absurd hhead (head?_chars_ne hpos)
    · rw [← List.length_pos_iff, List.length_drop]
      omega
    · exact fun c hc => d.isDigit_chars c (List.mem_of_mem_drop hc)
    · rw [List.getLast?_drop, if_neg (by omega)]
      exact hlast
  · -- zeros fill the places behind the point
    refine ⟨['0'], List.replicate (places - d.chars.length) '0' ++ d.chars, rfl,
      isWholePart_zero, List.append_ne_nil_of_right_ne_nil _ d.chars_ne_nil,
      List.forall_mem_append.2 ⟨isDigit_replicate _, d.isDigit_chars⟩, ?_⟩
    rw [List.getLast?_append_of_ne_nil _ d.chars_ne_nil]
    exact hlast

theorem IsReduced.isExpansion (hd : d.IsReduced) : IsExpansion d.positional := by
  obtain hwhole | hfraction := le_or_gt 0 d.exponent
  · exact .whole (hd.whole hwhole)
  · obtain ⟨ds, fs, heq, hds, hne, hfs, hlast⟩ := hd.fraction hfraction
    rw [heq]
    exact .fraction hds hne hfs hlast

theorem IsReduced.mem_positional_iff (hd : d.IsReduced) :
    '.' ∈ d.positional ↔ d.exponent < 0 := by
  constructor
  · intro hmem
    by_contra hwhole
    exact absurd ((hd.whole (Int.not_lt.1 hwhole)).isDigit _ hmem) (by decide)
  · intro hfraction
    obtain ⟨ds, fs, heq, -⟩ := hd.fraction hfraction
    rw [heq]
    exact List.mem_append_right _ List.mem_cons_self

/-! ## §3. The debug form. -/

/-- The exponent of a scientific form. -/
def exponentText (d : Digits) : List Char :=
  let order := Nat.toDigits 10 d.order.natAbs
  'e' :: (if d.order < 0 then '-' else '+') :: (List.replicate (2 - order.length) '0' ++ order)

/-- A scientific form is a digit, the others behind a point, and an exponent. -/
theorem scientific_cases (d : Digits) :
    (∃ c, d.chars = [c] ∧ d.scientific = [c] ++ d.exponentText)
      ∨ ∃ c cs, d.chars = c :: cs ∧ cs ≠ [] ∧ d.scientific = c :: '.' :: cs ++ d.exponentText := by
  unfold scientific exponentText
  dsimp only
  split
  · next c e es heq => exact .inr ⟨c, e :: es, heq, List.cons_ne_nil e es, List.append_assoc _ _ _⟩
  · next hshort =>
    obtain ⟨c, cs, heq⟩ := List.exists_cons_of_ne_nil d.chars_ne_nil
    rw [heq] at hshort ⊢
    cases cs with
    | nil => exact .inl ⟨c, rfl, List.append_assoc _ _ _⟩
    | cons e es => exact absurd rfl (hshort c e es)

theorem isExponent_exponentText (d : Digits) : IsExponent d.exponentText := by
  refine .signed ?_ ?_ (List.forall_mem_append.2 ⟨isDigit_replicate _, fun c hc => ?_⟩)
  · split <;> decide
  · rw [List.length_append, List.length_replicate]
    omega
  · exact Nat.isDigit_of_mem_toDigits (by decide) (by decide) hc

theorem isDebugForm_scientific (d : Digits) : IsDebugForm d.scientific := by
  have hdigits := d.isDigit_chars
  rcases d.scientific_cases with ⟨c, hc, heq⟩ | ⟨c, cs, hc, hne, heq⟩ <;> rw [hc] at hdigits <;>
    rw [heq]
  · exact .digit (hdigits c List.mem_cons_self) d.isExponent_exponentText
  · obtain ⟨hfirst, hrest⟩ := List.forall_mem_cons.1 hdigits
    exact .digits hfirst hne hrest d.isExponent_exponentText

theorem IsReduced.isDebugForm (hd : d.IsReduced) : IsDebugForm d.debug := by
  unfold debug
  split_ifs with hplain hwhole
  · have h := hd.whole hwhole
    show IsDebugForm (d.positional ++ '.' :: ['0'])
    exact .point h.ne_nil (by simp) h.isDigit (by simp)
  · obtain ⟨ds, fs, heq, hds, hne, hfs, -⟩ := hd.fraction (Int.not_le.1 hwhole)
    rw [heq, List.append_nil]
    exact .point hds.ne_nil hne hds.isDigit hfs
  · exact d.isDebugForm_scientific

end Digits

/-! ## §4. What a text denotes. -/

/-- The exponent at the end of a text, if there is one. -/
def exponentOf : List Char → Int
  | 'e' :: '-' :: es => -(Nat.ofDigitChars 10 es 0 : Int)
  | 'e' :: '+' :: es => Nat.ofDigitChars 10 es 0
  | _ => 0

/-- The rational number that a decimal text without a sign denotes. -/
def unsignedRational (cs : List Char) : ℚ :=
  let mantissa := cs.takeWhile (· ≠ 'e')
  numeratorOf mantissa / denominatorOf mantissa * 10 ^ exponentOf (cs.dropWhile (· ≠ 'e'))

/-- The rational number that a decimal text denotes. -/
def rationalOf : List Char → ℚ
  | '-' :: cs => -unsignedRational cs
  | cs => unsignedRational cs

/-- The places behind the point of a mantissa. -/
def placesOf (mantissa : List Char) : Nat :=
  (mantissa.drop ((mantissa.takeWhile (· ≠ '.')).length + 1)).length

/-- The decimal number of a text without a sign, in the places that the text
shows. -/
def decimalOf (cs : List Char) : Digits :=
  let mantissa := cs.takeWhile (· ≠ 'e')
  ⟨numeratorOf mantissa, exponentOf (cs.dropWhile (· ≠ 'e')) - placesOf mantissa⟩

/-- The exponent begins where the mantissa ends. -/
theorem takeWhile_mantissa {mantissa tail : List Char}
    (h : ∀ c ∈ mantissa, c.isDigit ∨ c = '.') (htail : ∀ c ∈ tail.head?, c = 'e') :
    (mantissa ++ tail).takeWhile (· ≠ 'e') = mantissa
      ∧ (mantissa ++ tail).dropWhile (· ≠ 'e') = tail := by
  have hall : ∀ c ∈ mantissa, decide (c ≠ 'e') = true := by
    intro c hc
    rw [decide_eq_true_iff]
    rintro rfl
    exact absurd (h _ hc) (by decide)
  rw [List.takeWhile_append_of_pos hall, List.dropWhile_append_of_pos hall]
  cases tail with
  | nil => exact ⟨List.append_nil _, rfl⟩
  | cons c cs => simp [htail c rfl]

/-- A mantissa and an exponent. -/
theorem decimalOf_append {mantissa tail : List Char} {places : Nat}
    (h : ∀ c ∈ mantissa, c.isDigit ∨ c = '.') (htail : ∀ c ∈ tail.head?, c = 'e')
    (hplaces : denominatorOf mantissa = 10 ^ places) :
    decimalOf (mantissa ++ tail) = ⟨numeratorOf mantissa, exponentOf tail - places⟩ := by
  obtain ⟨htake, hdrop⟩ := takeWhile_mantissa h htail
  have heq : placesOf mantissa = places := Nat.pow_right_injective (by decide) hplaces
  unfold decimalOf
  dsimp only
  rw [htake, hdrop, heq]

/-- A mantissa alone. -/
theorem decimalOf_mantissa {mantissa : List Char} {places : Nat}
    (h : ∀ c ∈ mantissa, c.isDigit ∨ c = '.') (hplaces : denominatorOf mantissa = 10 ^ places) :
    decimalOf mantissa = ⟨numeratorOf mantissa, -places⟩ := by
  have happend : decimalOf (mantissa ++ []) = _ := decimalOf_append h (by simp) hplaces
  rw [List.append_nil] at happend
  rw [happend, show exponentOf [] = 0 from rfl, Int.zero_sub]

namespace Digits

variable {d : Digits}

/-- The rational number that digits stand for. -/
def rational (d : Digits) : ℚ := d.digits * 10 ^ d.exponent

/-- A text denotes what its decimal number stands for. -/
theorem rational_decimalOf (cs : List Char) : (decimalOf cs).rational = unsignedRational cs := by
  unfold decimalOf rational unsignedRational
  dsimp only
  rw [zpow_sub₀ (by norm_num), zpow_natCast]
  have hden : (denominatorOf (cs.takeWhile (· ≠ 'e')) : ℚ)
      = 10 ^ placesOf (cs.takeWhile (· ≠ 'e')) := Nat.cast_pow 10 _
  rw [hden]
  ring

theorem fraction_eq (d : Digits) : (d.numerator : ℚ) / d.denominator = d.rational := by
  unfold numerator denominator rational
  obtain ⟨n, hn | hn⟩ := d.exponent.eq_nat_or_neg
  · rw [hn]
    simp
  · rw [hn]
    simp [div_eq_mul_inv]

theorem decimalOf_positional (d : Digits) :
    decimalOf d.positional = ⟨d.numerator, -((-d.exponent).toNat : Int)⟩ := by
  obtain ⟨hnum, hden⟩ := d.fraction_positional
  rw [decimalOf_mantissa d.isDigit_or_point hden, hnum]

theorem unsignedRational_positional (d : Digits) : unsignedRational d.positional = d.rational := by
  rw [← rational_decimalOf, decimalOf_positional, ← d.fraction_eq, rational, denominator,
    zpow_neg, zpow_natCast, div_eq_mul_inv]
  push_cast
  rfl

theorem exponentOf_exponentText (d : Digits) : exponentOf d.exponentText = d.order := by
  have hvalue : ∀ n, Nat.ofDigitChars 10
      (List.replicate n '0' ++ Nat.toDigits 10 d.order.natAbs) 0 = d.order.natAbs := by
    intro n
    rw [Nat.ofDigitChars_append, Nat.ofDigitChars_replicate_zero, Nat.mul_zero]
    exact Nat.ofDigitChars_ten_toDigits
  unfold exponentText
  dsimp only
  split <;> rw [exponentOf, hvalue] <;> omega

/-- A scientific form shows the digits and nothing else. -/
theorem decimalOf_scientific (d : Digits) : decimalOf d.scientific = d := by
  have htail : ∀ c ∈ d.exponentText.head?, c = 'e' := fun c hc => (Option.some.inj hc).symm
  have hdigits := d.isDigit_chars
  have hvalue := d.value_chars
  have horder : d.order = d.chars.length - 1 + d.exponent := rfl
  rcases d.scientific_cases with ⟨c, hc, heq⟩ | ⟨c, cs, hc, -, heq⟩ <;>
    rw [hc] at hdigits hvalue horder <;> rw [heq]
  · obtain ⟨hnum, hden⟩ := fraction_whole hdigits
    have hplaces : denominatorOf [c] = 10 ^ 0 := hden
    rw [decimalOf_append (fun e he => .inl (hdigits e he)) htail hplaces, hnum, hvalue,
      exponentOf_exponentText, horder]
    simp
  · obtain ⟨hfirst, hrest⟩ := List.forall_mem_cons.1 hdigits
    have hone : ∀ e ∈ [c], e.isDigit := fun e he => List.mem_singleton.1 he ▸ hfirst
    have hpoint : ∀ e ∈ [c] ++ '.' :: cs, e.isDigit ∨ e = '.' :=
      List.forall_mem_cons.2 ⟨.inl hfirst, List.forall_mem_cons.2 ⟨.inr rfl, fun e he =>
        .inl (hrest e he)⟩⟩
    obtain ⟨hnum, hden⟩ := fraction_point hone cs
    show decimalOf (([c] ++ '.' :: cs) ++ d.exponentText) = _
    rw [decimalOf_append hpoint htail hden, hnum, List.singleton_append, hvalue,
      exponentOf_exponentText, horder, List.length_cons]
    simp

/-- A zero behind the point is a place more. -/
theorem IsReduced.decimalOf_whole (hd : d.IsReduced) (h : 0 ≤ d.exponent) :
    decimalOf (d.positional ++ ['.', '0']) = ⟨10 * d.numerator, -1⟩ := by
  have hdigits := (hd.whole h).isDigit
  obtain ⟨hnum, hden⟩ := fraction_point hdigits ['0']
  have hpoint : ∀ c ∈ d.positional ++ ['.', '0'], c.isDigit ∨ c = '.' :=
    List.forall_mem_append.2 ⟨d.isDigit_or_point, by simp⟩
  have hvalue : Nat.ofDigitChars 10 (d.positional ++ ['0']) 0 = 10 * d.numerator := by
    rw [← d.fraction_positional.1, (fraction_whole hdigits).1, Nat.ofDigitChars_append,
      show ['0'] = List.replicate 1 '0' from rfl, Nat.ofDigitChars_replicate_zero, Nat.pow_one]
  rw [decimalOf_mantissa hpoint hden, hnum, hvalue]
  rfl

theorem unsignedRational_debug (hd : d.IsReduced) : unsignedRational d.debug = d.rational := by
  unfold debug
  split_ifs with hplain hwhole
  · have hden : d.denominator = 1 := by
      rw [denominator, show (-d.exponent).toNat = 0 by omega, Nat.pow_zero]
    rw [← rational_decimalOf, hd.decimalOf_whole hwhole, ← d.fraction_eq, hden, rational]
    push_cast
    field_simp
  · rw [List.append_nil]
    exact d.unsignedRational_positional
  · rw [← rational_decimalOf, decimalOf_scientific]

end Digits

/-! ## §5. Writing a text out. -/

/-- A text without the `.0` at its end, if there is one. -/
def withoutPointZero (cs : List Char) : List Char :=
  if ['.', '0'].isSuffixOf cs then cs.take (cs.length - 2) else cs

theorem withoutPointZero_append (cs : List Char) : withoutPointZero (cs ++ ['.', '0']) = cs := by
  have hsuffix : ['.', '0'].isSuffixOf (cs ++ ['.', '0']) = true :=
    List.isSuffixOf_iff_suffix.2 (List.suffix_append _ _)
  rw [withoutPointZero, if_pos hsuffix, List.length_append]
  exact List.take_left

theorem withoutPointZero_of_not_suffix {cs : List Char} (h : ¬ ['.', '0'] <:+ cs) :
    withoutPointZero cs = cs :=
  if_neg fun hsuffix => h (List.isSuffixOf_iff_suffix.1 hsuffix)

/-- A decimal text with its number written out in all its places. -/
def expanded : List Char → List Char
  | '-' :: cs => '-' :: (decimalOf cs).positional
  | cs => (decimalOf cs).positional

/-- Zeros behind a positive number. -/
theorem toDigits_mul_pow {n : Nat} (hn : 0 < n) (k : Nat) :
    Nat.toDigits 10 (n * 10 ^ k) = Nat.toDigits 10 n ++ List.replicate k '0' := by
  induction k with
  | zero => rw [Nat.pow_zero, Nat.mul_one, List.replicate_zero, List.append_nil]
  | succ k ih =>
    have hpos : 0 < n * 10 ^ k := Nat.mul_pos hn (Nat.pow_pos (by decide))
    calc Nat.toDigits 10 (n * 10 ^ (k + 1))
        = Nat.toDigits 10 (10 * (n * 10 ^ k) + 0) := by rw [Nat.pow_succ]; congr 1; ring
      _ = Nat.toDigits 10 (n * 10 ^ k) ++ Nat.toDigits 10 0 :=
        (Nat.toDigits_append_toDigits (by decide) hpos (by decide)).symm
      _ = Nat.toDigits 10 n ++ List.replicate (k + 1) '0' := by
        rw [ih, List.append_assoc, List.replicate_succ']
        rfl

namespace Digits

variable {d : Digits}

/-- A number of tenths that is a whole number. -/
theorem positional_tenths (n : Nat) :
    positional ⟨10 * n, -1⟩ = Nat.toDigits 10 n ++ ['.', '0'] := by
  obtain rfl | hn := Nat.eq_zero_or_pos n
  · rfl
  · have hchars : chars ⟨10 * n, -1⟩ = Nat.toDigits 10 n ++ ['0'] := by
      rw [chars, Nat.mul_comm]
      exact toDigits_mul_pow hn 1
    have hlength : 0 < (Nat.toDigits 10 n).length := Nat.length_toDigits_pos
    unfold positional
    dsimp only
    rw [hchars, if_neg (by decide), if_pos (by simpa using hlength)]
    simp

/-- A whole number is written as its digits. -/
theorem IsReduced.toDigits_numerator (hd : d.IsReduced) (h : 0 ≤ d.exponent) :
    Nat.toDigits 10 d.numerator = d.positional := by
  unfold positional numerator
  dsimp only
  rw [if_pos h]
  obtain hzero | hpos := Nat.eq_zero_or_pos d.digits
  · rw [hd.zero hzero, chars, hzero]
    rfl
  · exact toDigits_mul_pow hpos _

/-- No `.0` is displayed. -/
theorem IsReduced.not_suffix (hd : d.IsReduced) {front : List Char} (hfront : '.' ∉ front) :
    ¬ ['.', '0'] <:+ front ++ d.positional := by
  rintro ⟨before, hbefore⟩
  obtain hwhole | hfraction := le_or_gt 0 d.exponent
  · have hmem : '.' ∈ front ++ d.positional := hbefore ▸ by simp
    rw [List.mem_append, or_iff_right hfront, hd.mem_positional_iff] at hmem
    omega
  · obtain ⟨ds, fs, heq, -, hne, -, hlast⟩ := hd.fraction hfraction
    have hend : (front ++ d.positional).getLast? = fs.getLast? := by
      rw [heq, ← List.append_assoc, ← List.singleton_append, ← List.append_assoc,
        List.getLast?_append_of_ne_nil _ hne]
    rw [← hend, ← hbefore] at hlast
    exact hlast (by simp)

/-- **THE DEBUG FORM WRITTEN OUT** is the display form, but for a `.0`. -/
theorem IsReduced.withoutPointZero_debug (hd : d.IsReduced) {front : List Char}
    (hfront : '.' ∉ front) :
    withoutPointZero (front ++ (decimalOf d.debug).positional) = front ++ d.positional := by
  unfold debug
  split_ifs with hplain hwhole
  · rw [hd.decimalOf_whole hwhole, positional_tenths, hd.toDigits_numerator hwhole,
      ← List.append_assoc, withoutPointZero_append]
  · have hnumber : decimalOf d.positional = d := by
      rw [decimalOf_positional, numerator, show d.exponent.toNat = 0 by omega, Nat.pow_zero,
        Nat.mul_one, show -((-d.exponent).toNat : Int) = d.exponent by omega]
    rw [List.append_nil, hnumber, withoutPointZero_of_not_suffix (hd.not_suffix hfront)]
  · rw [decimalOf_scientific, withoutPointZero_of_not_suffix (hd.not_suffix hfront)]

end Digits
end LoxScript.Decimal
