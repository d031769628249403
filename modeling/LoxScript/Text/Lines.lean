/-
  LoxScript.Text.Lines
  ────────────────────────────────
  Line breaks.

  Inside the library a line ends with LF and with nothing else.  Where text
  from outside is translated, `normalizeBreaks` does it: CR LF and a lone CR
  become LF.  `splitLines` cuts after each LF, so its parts put together
  are the text again and only the last one can lack its LF.
-/

namespace LoxScript.Text

/-- CR LF and a lone CR become LF. -/
def normalizeBreaks : List Char → List Char
  | [] => []
  | '\r' :: '\n' :: cs => '\n' :: normalizeBreaks cs
  | c :: cs => (if c = '\r' then '\n' else c) :: normalizeBreaks cs

/-- The lines of a text, each with its LF. -/
def splitLines : List Char → List (List Char)
  | [] => []
  | c :: cs =>
    if c = '\n' then [c] :: splitLines cs
    else
      match splitLines cs with
      | [] => [[c]]
      | l :: ls => (c :: l) :: ls

/-- How many line breaks a text has. -/
def breaks (cs : List Char) : Nat := cs.count '\n'

@[simp] theorem breaks_nil : breaks [] = 0 := rfl

@[simp] theorem breaks_append (a b : List Char) : breaks (a ++ b) = breaks a + breaks b :=
  List.count_append

end LoxScript.Text
