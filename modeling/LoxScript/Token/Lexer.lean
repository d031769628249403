/-
  LoxScript.Token.Lexer
  ────────────────────────────────
  A scanner that can be asked more than once.

  `Lexer` keeps a source text, a cursor into it, the line of the cursor and
  the tokens before it.  A scan goes back to the first character and forgets
  everything but the text.  Then it takes turns: a turn reads one piece, and
  if that is a lexeme, it becomes the last token.

      turn       — the next piece, or why there is none
      turns      — turns up to the end of the text, or up to the first failure
      tokenize   — a scan, which closes the tokens with an end token

  A turn that fails leaves its mark too: the cursor stands behind the stray
  character, or at the end of the text if a string is never closed.
-/
import LoxScript.Token.Scan

namespace LoxScript

/-! ## §1. Lexers. -/

/-- A source text, where the piece read last begins in it, how many characters
have been read, the line they lead to, and the tokens among them. -/
structure Lexer where
  source : String
  start : Nat
  position : Nat
  line : Nat
  tokens : List Token

namespace Lexer

/-- A lexer that has not read anything. -/
def ofSource (source : String) : Lexer := ⟨source, 0, 0, 1, []⟩

/-- The characters that are not read yet. -/
def rest (l : Lexer) : List Char := l.source.toList.drop l.position

/-- Reads the characters of a text. -/
def read (l : Lexer) (text : List Char) : Lexer :=
  { l with
    start := l.position
    position := l.position + text.length
    line := l.line + Text.breaks text }

/-- Reads a piece; the token of a lexeme has the line on which it ends. -/
def take (l : Lexer) : Piece → Lexer
  | .gap text => l.read text
  | .lexeme kind text =>
    let q := l.read text
    { q with tokens := q.tokens ++ [⟨kind, String.ofList text, literalOf kind text, q.line⟩] }

@[simp] theorem source_take (l : Lexer) (p : Piece) : (l.take p).source = l.source := by
  cases p <;> rfl

@[simp] theorem position_take (l : Lexer) (p : Piece) :
    (l.take p).position = l.position + p.text.length := by
  cases p <;> rfl

/-- What is left behind a piece. -/
theorem rest_take {l : Lexer} {p : Piece} {cs : List Char} (h : l.rest = p.text ++ cs) :
    (l.take p).rest = cs := by
  rw [rest, source_take, position_take, ← List.drop_drop]
  show l.rest.drop p.text.length = cs
  rw [h, List.drop_left]

/-! ## §2. Turns. -/

/-- What a turn comes to. -/
inductive Turn where
  /-- No character was left. -/
  | finished
  | goes (l : Lexer)
  | fails (cause : LexicalCause) (l : Lexer)

/-- One turn. -/
def turn (l : Lexer) : Turn :=
  match l.rest with
  | [] => .finished
  | c :: cs =>
    match beginning c cs with
    | .piece p _ => .goes (l.take p)
    -- the search for the closing quote reads everything
    | .unclosed => .fails .openString (l.read (c :: cs))
    | .stray => .fails (.strayCharacter (String.singleton c)) (l.read [c])

/-- A turn that goes on has read the first piece of what was left. -/
theorem exists_beginning_of_turn {l l' : Lexer} (h : l.turn = .goes l') :
    ∃ c cs p rest, l.rest = c :: cs ∧ beginning c cs = .piece p rest ∧ l' = l.take p := by
  unfold turn at h
  split at h
  · cases h
  · next c cs hrest =>
    split at h
    · next p rest hb => exact ⟨c, cs, p, rest, hrest, hb, (Turn.goes.inj h).symm⟩
    · cases h
    · cases h

/-- Each turn leaves fewer characters to read. -/
theorem length_rest_lt {l l' : Lexer} (h : l.turn = .goes l') :
    l'.rest.length < l.rest.length := by
  obtain ⟨c, cs, p, rest, hrest, hb, rfl⟩ := exists_beginning_of_turn h
  obtain ⟨t, ht, rfl⟩ := beginning_text hb
  have hsplit : l.rest = p.text ++ rest := by rw [hrest, ht, List.cons_append]
  rw [rest_take hsplit, hrest]
  exact length_lt_of_beginning hb

/-- Turns up to the end of the text, or up to the first that fails. -/
def turns (l : Lexer) : Option LexicalError × Lexer :=
  match _h : l.turn with
  | .finished => (none, l)
  | .goes l' => l'.turns
  | .fails cause l' => (some ⟨cause, l'.line⟩, l')
termination_by l.rest.length
decreasing_by exact length_rest_lt _h

/-- Scans the text from its first character on. -/
def tokenize (l : Lexer) : Except LexicalError (List Token) × Lexer :=
  let (error?, q) := (ofSource l.source).turns
  match error? with
  | some e => (.error e, q)
  | none =>
    let tokens := q.tokens ++ [endToken q.line]
    (.ok tokens, { q with tokens })

end Lexer
end LoxScript
