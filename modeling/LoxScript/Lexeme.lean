/-
  LoxScript.Lexeme
  ────────────────────────────────
  Cutting a text into lexemes and gaps.

  The first character of what remains decides what it begins with: an
  operator, a number, a string, a word, a comment or a blank.  Each of them
  takes as many characters as it can, and what it leaves is cut in the same
  way.  Cutting stops at the end, at a string that never closes, or at a
  character with which nothing begins.

      a = "x"; // done     ⟶     a  ␣  =  ␣  "x"  ;  ␣  // done

  Cutting knows neither lines nor positions: both are counts over the
  pieces, for the pieces put together are the text (`cut_text`).
-/
import LoxScript.Token
import LoxScript.Text.Lines

namespace LoxScript

/-! ## §1. Classes of characters. -/

def isBlank (c : Char) : Bool := c = ' ' || c = '\t' || c = '\r' || c = '\n'

/-- An ASCII letter or the underscore. -/
def startsWord (c : Char) : Bool := c.isAlpha || c = '_'

def continuesWord (c : Char) : Bool := startsWord c || c.isDigit

/-! ## §2. Pieces. -/

/-- A lexeme, or what may stand between two lexemes: one blank or one
comment. -/
inductive Piece where
  | gap (text : List Char)
  | lexeme (kind : Kind) (text : List Char)

def Piece.text : Piece → List Char
  | .gap text => text
  | .lexeme _ text => text

/-- The literal of a token, which its kind and its lexeme decide. -/
def literalOf (kind : Kind) (text : List Char) : Value :=
  match kind with
  | .string => .text (String.ofList (text.drop 1).dropLast)
  | .number => .number (Decimal.readNumeral text)
  | .identifier => .name (String.ofList text)
  | k => (Kind.constants.lookup k).getD .nil

/-! ## §3. The first piece. -/

/-- What a text begins with. -/
inductive Beginning where
  | piece (p : Piece) (rest : List Char)
  /-- A string without closing quote. -/
  | unclosed
  /-- Nothing begins with the first character. -/
  | stray

/-- What follows the digits that start a number: its fraction, if the point
has a digit behind it. -/
def fractionOf : List Char → List Char × List Char
  | '.' :: d :: cs =>
    if d.isDigit then ('.' :: d :: cs.takeWhile Char.isDigit, cs.dropWhile Char.isDigit)
    else ([], '.' :: d :: cs)
  | cs => ([], cs)

/-- What the text `c :: cs` begins with. -/
def beginning (c : Char) (cs : List Char) : Beginning :=
  match Kind.singles.lookup c, Kind.pairs.lookup c with
  | some kind, _ => .piece (.lexeme kind [c]) cs
  | none, some (joined, alone) =>
    match cs with
    | '=' :: rest => .piece (.lexeme joined [c, '=']) rest
    | _ => .piece (.lexeme alone [c]) cs
  | none, none =>
    -- a comment is looked for before the operator
    if c = '/' then
      match cs with
      | '/' :: _ => .piece (.gap (c :: cs.takeWhile (· ≠ '\n'))) (cs.dropWhile (· ≠ '\n'))
      | _ => .piece (.lexeme .slash [c]) cs
    else if isBlank c then .piece (.gap [c]) cs
    else if c = '\x22' then
      match cs.dropWhile (· ≠ '\x22') with
      | [] => .unclosed
      | q :: rest => .piece (.lexeme .string (c :: cs.takeWhile (· ≠ '\x22') ++ [q])) rest
    else if c.isDigit then
      let (fraction, rest) := fractionOf (cs.dropWhile Char.isDigit)
      .piece (.lexeme .number (c :: cs.takeWhile Char.isDigit ++ fraction)) rest
    else if startsWord c then
      let word := c :: cs.takeWhile continuesWord
      .piece (.lexeme (Kind.ofWord (String.ofList word)) word) (cs.dropWhile continuesWord)
    else .stray

/-- A fraction and what follows it are what there was. -/
theorem fractionOf_append (cs : List Char) : (fractionOf cs).1 ++ (fractionOf cs).2 = cs := by
  unfold fractionOf
  split
  · split <;> simp
  · rfl

/-- The first piece and what follows it are the text, and the piece begins
with the first character. -/
theorem beginning_text {c : Char} {cs : List Char} {p : Piece} {rest : List Char}
    (h : beginning c cs = .piece p rest) : ∃ t, p.text = c :: t ∧ t ++ rest = cs := by
  unfold beginning at h
  repeat' split at h
  all_goals try cases h
  all_goals simp only [Piece.text, List.cons_append, List.cons.injEq, true_and, exists_eq_left',
    List.nil_append, List.append_assoc]
  · next heq =>
    rw [List.takeWhile_append_dropWhile]
  · next heq =>
    rw [← heq, List.takeWhile_append_dropWhile]
  · next heq =>
    have hf := fractionOf_append (cs.dropWhile Char.isDigit)
    rw [heq] at hf
    rw [hf, List.takeWhile_append_dropWhile]
  · rw [List.takeWhile_append_dropWhile]

theorem length_lt_of_beginning {c : Char} {cs : List Char} {p : Piece} {rest : List Char}
    (h : beginning c cs = .piece p rest) : rest.length < (c :: cs).length := by
  obtain ⟨t, _, rfl⟩ := beginning_text h
  rw [List.length_cons, List.length_append]
  omega

/-! ## §4. The whole text. -/

/-- Where cutting stops. -/
inductive Stop where
  | finished
  /-- What remains is a string without closing quote. -/
  | unclosed (rest : List Char)
  /-- Nothing begins with this character. -/
  | stray (c : Char) (rest : List Char)

/-- What remains uncut. -/
def Stop.rest : Stop → List Char
  | .finished => []
  | .unclosed rest => rest
  | .stray c rest => c :: rest

/-- The pieces of a text, up to where cutting stops. -/
structure Cutting where
  pieces : List Piece
  stop : Stop

/-- Cuts a text from its start. -/
def cut : List Char → Cutting
  | [] => ⟨[], .finished⟩
  | c :: cs =>
    match _ : beginning c cs with
    | .piece p rest =>
      let r := cut rest
      ⟨p :: r.pieces, r.stop⟩
    | .unclosed => ⟨[], .unclosed (c :: cs)⟩
    | .stray => ⟨[], .stray c cs⟩
termination_by cs => cs.length
decreasing_by exact length_lt_of_beginning ‹_›

/-- The text of pieces put together. -/
def piecesText (ps : List Piece) : List Char := ps.flatMap Piece.text

@[simp] theorem piecesText_nil : piecesText [] = [] := rfl

@[simp] theorem piecesText_cons (p : Piece) (ps : List Piece) :
    piecesText (p :: ps) = p.text ++ piecesText ps := rfl

/-- The pieces and what remains uncut are the text. -/
theorem cut_text (cs : List Char) : piecesText (cut cs).pieces ++ (cut cs).stop.rest = cs := by
  fun_induction cut cs with
  | case1 => rfl
  | case2 c cs p rest h r ih =>
    obtain ⟨t, hp, rfl⟩ := beginning_text h
    simp [hp, r, ih]
  | case3 => rfl
  | case4 => rfl

end LoxScript
