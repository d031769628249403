/-
  LoxScript.Decimal.Shortest
  ────────────────────────────────
  The fewest decimal digits that read back as a given double.

  The reals that round to a magnitude form an interval around it: half a
  step to each side, a quarter of one below a power of two, ends included
  exactly when the significand is even.  The grids of decimal numbers
  ..., 100, 10, 1, 0.1, 0.01, ... are tried from coarse to fine; the first
  grid with a point in the interval has the fewest digits.  Only the two
  neighbours of the magnitude on a grid need a look, for an interval that
  holds any point of the grid holds one of them.  If both are inside, the
  nearer one is taken, and of two equally near ones the even.

  All is exact arithmetic on natural numbers: ends are counted in quarters
  of the least step, so in units of 2⁻¹⁰⁷⁶, and grid number `s` has the
  spacing 10 ^ (s - 324).
-/
import LoxScript.Decimal.Binary

namespace LoxScript.Decimal

/-! ## §1. The interval of a magnitude. -/

/-- The distance down to the lower end, in quarters of the magnitude's step. -/
def Magnitude.below (m : Magnitude) : Nat :=
  if m.significand = Nat.pow 2 52 ∧ 0 < m.shift then 1 else 2

/-- The lower end, in units of 2⁻¹⁰⁷⁶. -/
def Magnitude.low (m : Magnitude) : Nat := (4 * m.significand - m.below) * Nat.pow 2 m.shift

/-- The magnitude itself, in units of 2⁻¹⁰⁷⁶. -/
def Magnitude.middle (m : Magnitude) : Nat := 4 * m.significand * Nat.pow 2 m.shift

/-- The upper end, in units of 2⁻¹⁰⁷⁶. -/
def Magnitude.high (m : Magnitude) : Nat := (4 * m.significand + 2) * Nat.pow 2 m.shift

/-- Whether `point / den`, in units of 2⁻¹⁰⁷⁶, rounds to the magnitude. -/
def Magnitude.covers (m : Magnitude) (point den : Nat) : Bool :=
  if m.significand % 2 = 0 then m.low * den ≤ point && point ≤ m.high * den
  else m.low * den < point && point < m.high * den

/-! ## §2. One grid. -/

/-- A decimal number `digits · 10 ^ exponent`. -/
structure Digits where
  digits : Nat
  exponent : Int
deriving DecidableEq, Repr

/-- Grid number 324 has the spacing 1. -/
def unitGrid : Nat := 324

/-- The spacing of a grid as a fraction, in units of 2⁻¹⁰⁷⁶. -/
def spacing (s : Nat) : Nat × Nat :=
  (Nat.pow 2 1076 * Nat.pow 10 (s - unitGrid), Nat.pow 10 (unitGrid - s))

/-- The point of a grid that stands for the magnitude, if one does. -/
def Magnitude.onGrid? (m : Magnitude) (s : Nat) : Option Nat :=
  let (step, den) := spacing s
  let d := m.middle * den / step
  let rest := m.middle * den % step
  match m.covers (d * step) den, m.covers ((d + 1) * step) den with
  | true, true =>
    -- both neighbours read back: the nearer one, in a tie the even one
    if 2 * rest < step then some d
    else if step < 2 * rest then some (d + 1)
    else some (d + d % 2)
  | true, false => some d
  | false, true => some (d + 1)
  | false, false => none

/-! ## §3. The search. -/

/-- The coarsest grid from number `s` down that has a point for the
magnitude.  Grid 0 is finer than every interval, so it always has one. -/
def Magnitude.shortestFrom (m : Magnitude) : Nat → Digits
  | 0 => ⟨(m.onGrid? 0).getD 0, -unitGrid⟩
  | s + 1 =>
    match m.onGrid? (s + 1) with
    | some d => ⟨d, (s + 1 : Nat) - (unitGrid : Int)⟩
    | none => m.shortestFrom s

/-- A grid too coarse for the magnitude: 30103 / 100000 exceeds log₁₀ 2. -/
def Magnitude.coarseGrid (m : Magnitude) : Nat := (m.high.log2 + 1) * 30103 / 100000 + 1

/-- The fewest digits that read back as the magnitude. -/
def Magnitude.shortest (m : Magnitude) : Digits :=
  if m.significand = 0 then ⟨0, 0⟩ else m.shortestFrom m.coarseGrid

end LoxScript.Decimal
