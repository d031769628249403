/-
  LoxScript.Text.Utf8
  ────────────────────────────────
  Strict UTF-8, read a byte at a time.

  A sequence is well formed when it is one of the rows below; nothing else
  is read, so overlong forms, surrogates and values above U+10FFFF are
  refused.  A refusal names the offset of the *lead* byte of the first bad
  sequence, also when the text ends inside it.

      00..7F
      C2..DF  80..BF
      E0      A0..BF  80..BF
      E1..EF  80..BF  80..BF            (after ED: 80..9F)
      F0      90..BF  80..BF  80..BF
      F1..F3  80..BF  80..BF  80..BF
      F4      80..8F  80..BF  80..BF

  Only the byte after the lead has a range of its own, which is why the
  state of the reader is one small record.
-/

namespace LoxScript.Text

/-! ## §1. Sequences in progress. -/

/-- A multi-byte sequence of which the lead byte has been read. -/
structure Utf8Sequence where
  /-- Offset of the lead byte. -/
  start : Nat
  /-- The code point bits read so far. -/
  bits : Nat
  /-- How many bytes are still due after the next one. -/
  after : Nat
  /-- Least value of the next byte. -/
  low : Nat
  /-- Greatest value of the next byte. -/
  high : Nat

/-- The sequence that a lead byte above 7F opens at an offset. -/
def Utf8Sequence.ofLead? (start lead : Nat) : Option Utf8Sequence :=
  if lead < 0xC2 then none
  else if lead < 0xE0 then some ⟨start, lead - 0xC0, 0, 0x80, 0xBF⟩
  else if lead = 0xE0 then some ⟨start, 0, 1, 0xA0, 0xBF⟩
  else if lead = 0xED then some ⟨start, 0xD, 1, 0x80, 0x9F⟩
  else if lead < 0xF0 then some ⟨start, lead - 0xE0, 1, 0x80, 0xBF⟩
  else if lead = 0xF0 then some ⟨start, 0, 2, 0x90, 0xBF⟩
  else if lead < 0xF4 then some ⟨start, lead - 0xF0, 2, 0x80, 0xBF⟩
  else if lead = 0xF4 then some ⟨start, 4, 2, 0x80, 0x8F⟩
  else none

/-! ## §2. Decoding. -/

/-- Decodes bytes of which the first stands at `offset`, in the middle of
`open?` if there is one.  An error is the offset of a bad sequence. -/
def decodeUtf8From (offset : Nat) : Option Utf8Sequence → List UInt8 → Except Nat (List Char)
  | none, [] => .ok []
  | some s, [] => .error s.start
  | none, b :: bs =>
    if b.toNat < 0x80 then
      (decodeUtf8From (offset + 1) none bs).map (Char.ofNat b.toNat :: ·)
    else
      match Utf8Sequence.ofLead? offset b.toNat with
      | none => .error offset
      | some s => decodeUtf8From (offset + 1) (some s) bs
  | some s, b :: bs =>
    if s.low ≤ b.toNat ∧ b.toNat ≤ s.high then
      let bits := s.bits * 64 + b.toNat % 64
      match s.after with
      | 0 => (decodeUtf8From (offset + 1) none bs).map (Char.ofNat bits :: ·)
      | n + 1 => decodeUtf8From (offset + 1) (some ⟨s.start, bits, n, 0x80, 0xBF⟩) bs
    else .error s.start

/-- Decodes a whole text; a byte order mark is a character like any other. -/
def decodeUtf8 (bytes : List UInt8) : Except Nat (List Char) :=
  decodeUtf8From 0 none bytes

end LoxScript.Text
