/-
  LoxScript.Token.Scan
  ────────────────────────────────
  From a source text to tokens.

  The pieces of the text are walked once with the current line; each lexeme
  becomes a token that carries the line on which it ends.  A finished scan
  closes the tokens with one end token.  A scan that fails keeps the tokens
  before the failure, and in both cases the cursor is reported:

      start      — where the last piece, or the failing lexeme, begins
      position   — how far the text has been read
      line       — one more than the line breaks read
-/
import LoxScript.Lexeme
import LoxScript.Problem

namespace LoxScript

/-! ## §1. Tokens of the pieces. -/

/-- The tokens of pieces that begin on a line. -/
def place (line : Nat) : List Piece → List Token
  | [] => []
  | .gap text :: ps => place (line + Text.breaks text) ps
  | .lexeme kind text :: ps =>
    ⟨kind, String.ofList text, literalOf kind text, (line + Text.breaks text : Nat)⟩
      :: place (line + Text.breaks text) ps

/-- The token that closes the tokens of a text. -/
def endToken (line : Nat) : Token := ⟨.endOfText, "", .nil, line⟩

/-! ## §2. The outcome of a scan. -/

/-- How far a scan came, and why it stopped if it failed. -/
structure Scan where
  tokens : List Token
  start : Nat
  position : Nat
  line : Nat
  error? : Option LexicalError

/-- Scans a source text. -/
def scan (source : String) : Scan :=
  let r := cut source.toList
  let before := piecesText r.pieces
  let line := 1 + Text.breaks before
  match r.stop with
  | .finished =>
    let last := (r.pieces.getLast?.map Piece.text).getD []
    ⟨place 1 r.pieces ++ [endToken line], before.length - last.length, before.length, line, none⟩
  | .unclosed rest =>
    -- the search for the closing quote has read everything
    let line := line + Text.breaks rest
    ⟨place 1 r.pieces, before.length, before.length + rest.length, line,
      some ⟨.openString, line⟩⟩
  | .stray c _ =>
    ⟨place 1 r.pieces, before.length, before.length + 1, line,
      some ⟨.strayCharacter (String.singleton c), line⟩⟩

/-- The tokens of a source text, or why there are none. -/
def tokensOf (source : String) : Except LexicalError (List Token) :=
  match (scan source).error? with
  | some e => .error e
  | none => .ok (scan source).tokens

end LoxScript
