/-
  LoxScript.Decimal.Numeral
  ────────────────────────────────
  Doubles as text, and text as doubles.

  Both written forms use the fewest digits that read back.

      display form    1   0.1   100000000000000000   -0   inf   NaN
      debug form      1.0   0.1   1e+17   1.5e-05   -0.0   inf   nan

  The display form never uses an exponent and has a fraction only if the
  number is not whole.  The debug form always shows that it is a double: by
  a point, or by an exponent where the first digit stands left of 10⁻⁴ or
  at 10¹⁶ and beyond.
-/
import LoxScript.Decimal.Shortest

namespace LoxScript.Decimal

/-! ## §1. Placing the point. -/

/-- The decimal digits of a number. -/
def Digits.chars (d : Digits) : List Char := Nat.toDigits 10 d.digits

/-- All digits written out, with a point only if some stand right of it. -/
def Digits.positional (d : Digits) : List Char :=
  let cs := d.chars
  if 0 ≤ d.exponent then cs ++ List.replicate d.exponent.toNat '0'
  else
    let places := (-d.exponent).toNat
    if places < cs.length then
      cs.take (cs.length - places) ++ '.' :: cs.drop (cs.length - places)
    else '0' :: '.' :: List.replicate (places - cs.length) '0' ++ cs

/-- The power of ten of the first digit. -/
def Digits.order (d : Digits) : Int := d.chars.length - 1 + d.exponent

/-- One digit before the point, the others after it, and a signed exponent
of at least two digits. -/
def Digits.scientific (d : Digits) : List Char :=
  let mantissa :=
    match d.chars with
    | c :: cs@(_ :: _) => c :: '.' :: cs
    | cs => cs
  let order := Nat.toDigits 10 d.order.natAbs
  mantissa ++ 'e' :: (if d.order < 0 then '-' else '+')
    :: List.replicate (2 - order.length) '0' ++ order

/-! ## §2. The two forms of a double. -/

/-- The magnitude of a finite double. -/
def magnitude (x : Float) : Magnitude := .ofBits (unsignedBits x)

/-- The minus sign of a double that has one. -/
def sign (x : Float) : List Char := if isNegative x then ['-'] else []

/-- The display form of a double. -/
def displayNumber (x : Float) : String :=
  if isUndefined x then "NaN"
  else if isInfinite x then String.ofList (sign x ++ ['i', 'n', 'f'])
  else String.ofList (sign x ++ (magnitude x).shortest.positional)

/-- The digits of the debug form. -/
def Digits.debug (d : Digits) : List Char :=
  if -4 ≤ d.order ∧ d.order < 16 then
    d.positional ++ if 0 ≤ d.exponent then ['.', '0'] else []
  else d.scientific

/-- The debug form of a double. -/
def debugNumber (x : Float) : String :=
  if isUndefined x then "nan"
  else if isInfinite x then String.ofList (sign x ++ ['i', 'n', 'f'])
  else String.ofList (sign x ++ (magnitude x).shortest.debug)

/-! ## §3. Reading. -/

/-- The double nearest to a numeral of the form `digits` or `digits.digits`. -/
def readNumeral (cs : List Char) : Float :=
  let whole := cs.takeWhile (· ≠ '.')
  let fraction := cs.drop (whole.length + 1)
  nearest (Nat.ofDigitChars 10 (whole ++ fraction) 0) (Nat.pow 10 fraction.length)

end LoxScript.Decimal
