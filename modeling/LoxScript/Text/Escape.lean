/-
  LoxScript.Text.Escape
  ────────────────────────────────
  Two written forms of a character string.

      debug form      'it is'   "it's"   '\t\x00\u200b'
      display form    "say \"hi\"\n"     "\u\x7b1b\x7d"

  The debug form is the one of logs and diagnostics: the quote is the
  apostrophe, unless the text has an apostrophe and no double quote, and
  every hidden character is written by its code.  The display form is the
  one of printed values and trees: always in double quotes, and only the
  ASCII control characters are escaped.

  Both forms are `open quote ++ flatMap of a character ++ close quote`, so a
  fact about a form is a fact about one character.
-/
import LoxScript.Text.Printable

namespace LoxScript.Text

/-! ## §1. Code points in lower-case hexadecimal. -/

/-- At least `width` hexadecimal digits. -/
def hexPadded (width n : Nat) : List Char :=
  let ds := Nat.toDigits 16 n
  List.replicate (width - ds.length) '0' ++ ds

/-- What holds of the sixteen digits holds of all digits of a number. -/
theorem forall_mem_toDigits {p : Char → Prop} (hp : ∀ d < 16, p (Nat.digitChar d)) (n : Nat) :
    ∀ c ∈ Nat.toDigits 16 n, p c := by
  induction n using Nat.strongRecOn with
  | ind n ih =>
    rw [Nat.toDigits_eq_if (by decide)]
    split
    · next hlt => exact List.forall_mem_singleton.2 (hp n hlt)
    · next hge =>
      rw [List.forall_mem_append, List.forall_mem_singleton]
      exact ⟨ih (n / 16) (by omega), hp (n % 16) (by omega)⟩

/-! ## §2. The debug form. -/

/-- The apostrophe, unless only the double quote saves an escape. -/
def debugQuote (cs : List Char) : Char :=
  if '\x27' ∈ cs ∧ '\x22' ∉ cs then '\x22' else '\x27'

/-- A hidden character by its code, in the shortest of the three widths. -/
def debugCode (n : Nat) : List Char :=
  if n < 0x100 then '\\' :: 'x' :: hexPadded 2 n
  else if n < 0x10000 then '\\' :: 'u' :: hexPadded 4 n
  else '\\' :: 'U' :: hexPadded 8 n

/-- One character between quotes of the form `quote`. -/
def debugChar (quote c : Char) : List Char :=
  if c = quote ∨ c = '\\' then ['\\', c]
  else if c = '\n' then ['\\', 'n']
  else if c = '\r' then ['\\', 'r']
  else if c = '\t' then ['\\', 't']
  else if isPrintable c then [c]
  else debugCode c.toNat

/-- The debug form of a text. -/
def debugForm (s : String) : String :=
  let quote := debugQuote s.toList
  String.ofList (quote :: s.toList.flatMap (debugChar quote) ++ [quote])

/-! ## §3. The display form. -/

/-- One character between double quotes. -/
def displayChar (c : Char) : List Char :=
  if c = '\x22' ∨ c = '\\' then ['\\', c]
  else if c = '\n' then ['\\', 'n']
  else if c = '\r' then ['\\', 'r']
  else if c = '\t' then ['\\', 't']
  else if c = '\x00' then ['\\', '0']
  else if c.toNat < 0x20 ∨ c.toNat = 0x7f then
    '\\' :: 'u' :: '\x7b' :: Nat.toDigits 16 c.toNat ++ ['\x7d']
  else [c]

/-- The display form of a text. -/
def displayForm (s : String) : String :=
  String.ofList ('\x22' :: s.toList.flatMap displayChar ++ ['\x22'])

end LoxScript.Text
