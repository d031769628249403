/-
  LoxScript.Decimal.Binary
  ────────────────────────────────
  The size of a double as a whole number of smallest steps.

  Every finite double is, up to its sign, `significand · 2 ^ shift` times the
  least positive double 2⁻¹⁰⁷⁴, with `significand < 2 ^ 53`.  Written so, the
  significand of a double and its bit pattern differ by `shift · 2 ^ 52`
  alone, subnormals included, and rounding a quotient to the nearest double
  is one division of natural numbers.

      nearest num den   — the double nearest to num / den, ties to even
-/

namespace LoxScript.Decimal

/-! ## §1. The two parts of a finite magnitude. -/

/-- A finite magnitude `significand · 2 ^ shift · 2⁻¹⁰⁷⁴`. -/
structure Magnitude where
  significand : Nat
  shift : Nat
deriving DecidableEq, Repr

/-- The least bit pattern that is no longer finite. -/
def infinityBits : Nat := 0x7ff * Nat.pow 2 52

/-- The magnitude with these bits, the sign bit left out. -/
def Magnitude.ofBits (bits : Nat) : Magnitude :=
  let shift := bits / Nat.pow 2 52 - 1
  ⟨bits - shift * Nat.pow 2 52, shift⟩

/-- The bit pattern of a magnitude. -/
def Magnitude.bits (m : Magnitude) : Nat := m.shift * Nat.pow 2 52 + m.significand

/-- The bit pattern of a double without its sign bit. -/
def unsignedBits (x : Float) : Nat := x.toBits.toNat % Nat.pow 2 63

/-- The sign bit, which also tells -0 from 0. -/
def isNegative (x : Float) : Bool := Nat.pow 2 63 ≤ x.toBits.toNat

/-- The bit patterns above infinity's stand for no number. -/
def isUndefined (x : Float) : Bool := infinityBits < unsignedBits x

/-- The two infinities, one for each sign. -/
def isInfinite (x : Float) : Bool := unsignedBits x = infinityBits

/-- Reading the parts back gives the bits. -/
theorem Magnitude.bits_ofBits (b : Nat) : (Magnitude.ofBits b).bits = b := by
  simp only [Magnitude.ofBits, Magnitude.bits, Nat.pow_eq]
  omega

/-! ## §2. Rounding a quotient. -/

/-- The quotient rounded to the nearest whole number, a tie to the even one. -/
def roundedQuotient (num den : Nat) : Nat :=
  let q := num / den
  let r := num % den
  if 2 * r < den then q
  else if den < 2 * r then q + 1
  else q + q % 2

/-- The magnitude nearest to `num / den`, before any overflow. -/
def nearestMagnitude (num den : Nat) : Magnitude :=
  let steps := num * Nat.pow 2 1074
  let shift := (steps / den).log2 - 52
  ⟨roundedQuotient steps (den * Nat.pow 2 shift), shift⟩

/-- The double nearest to `num / den`; what is too large is infinite. -/
def nearest (num den : Nat) : Float :=
  Float.ofBits (UInt64.ofNat (min (nearestMagnitude num den).bits infinityBits))

end LoxScript.Decimal
