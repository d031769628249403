/-
  LoxScript.Proofs.Relocation
  ────────────────────────────────
  The same program further down in a text.

  Moving a program down by `n` lines (`shift n`) is one way of giving it
  other lines, so it commutes with every stage:

      place         — the pieces of a text that begins `n` lines lower
      IsProgram     — the tokens and the trees that spell them
      execute       — the same events, scopes and end, and a failure that
                      blames a token `n` lines lower
-/
import LoxScript.Proofs.Lines
import LoxScript.Token.Scan

namespace LoxScript

/-! ## §1. Moving down. -/

/-- A token `n` lines lower. -/
def Token.shift (n : Nat) (t : Token) : Token := { t with line := t.line + n }

/-- An expression `n` lines lower. -/
def Expr.shift (n : Nat) : Expr → Expr
  | .literal v => .literal v
  | .paren e => .paren (e.shift n)
  | .unary op e => .unary (op.shift n) (e.shift n)
  | .binary l op r => .binary (l.shift n) (op.shift n) (r.shift n)
  | .name t => .name (t.shift n)
  | .assign t e => .assign (t.shift n) (e.shift n)

/-- A statement `n` lines lower. -/
def Stmt.shift (n : Nat) : Stmt → Stmt
  | .expression e => .expression (e.shift n)
  | .print e => .print (e.shift n)
  | .declare t init => .declare (t.shift n) (init.map (Expr.shift n))

/-- A failure that blames a token `n` lines lower.  A misuse blames none. -/
def Failure.shift (n : Nat) : Failure → Failure
  | .error e => .error { e with token := e.token.shift n }
  | .misuse m => .misuse m

/-- A problem `n` lines lower. -/
def Problem.shift (n : Nat) : Problem → Problem
  | .scan e => .scan { e with line := e.line + n }
  | .parse e => .parse { e with line := e.line + n }
  | .evaluate e => .evaluate { e with token := e.token.shift n }
  | .unstaged message line => .unstaged message (line + n)

theorem Token.shift_shift (m n : Nat) (t : Token) : (t.shift m).shift n = t.shift (m + n) := by
  unfold Token.shift
  rw [Int.add_assoc, ← Int.natCast_add]

theorem Problem.shift_shift (m n : Nat) (p : Problem) :
    (p.shift m).shift n = p.shift (m + n) := by
  cases p <;> simp only [Problem.shift, Token.shift_shift, Int.add_assoc, Int.natCast_add]

theorem Problem.shift_zero (p : Problem) : p.shift 0 = p := by
  cases p <;> simp [Problem.shift, Token.shift]

/-! ## §2. Tokens of a text. -/

/-- The tokens of pieces that begin `n` lines lower. -/
theorem place_add (line n : Nat) (ps : List Piece) :
    place (line + n) ps = (place line ps).map (Token.shift n) := by
  induction ps generalizing line with
  | nil => rfl
  | cons p ps ih =>
    cases p with
    | gap text => rw [place, place, Nat.add_right_comm, ih]
    | lexeme kind text =>
      rw [place, place, Nat.add_right_comm, ih, List.map_cons, Token.shift, Int.natCast_add]

/-! ## §3. Programs. -/

theorem Expr.shift_eq_mapLine (n : Nat) (e : Expr) : e.shift n = e.mapLine (· + n) := by
  induction e with
  | literal _ | name _ => rfl
  | paren e ih => rw [Expr.shift, ih, Expr.mapLine]
  | unary op e ih =>
    rw [Expr.shift, ih, Expr.mapLine]
    rfl
  | binary l op r ihl ihr =>
    rw [Expr.shift, ihl, ihr, Expr.mapLine]
    rfl
  | assign t e ih =>
    rw [Expr.shift, ih, Expr.mapLine]
    rfl

theorem Stmt.shift_eq_mapLine (n : Nat) : Stmt.shift n = Stmt.mapLine (· + n) := by
  funext s
  have hexpr : Expr.shift n = Expr.mapLine (· + n) := funext (Expr.shift_eq_mapLine n)
  cases s with
  | expression e | print e => rw [Stmt.shift, hexpr, Stmt.mapLine]
  | declare t init =>
    rw [Stmt.shift, hexpr, Stmt.mapLine]
    rfl

theorem Failure.shift_eq_mapLine (n : Nat) : Failure.shift n = Failure.mapLine (· + n) := by
  funext f
  cases f <;> rfl

/-- **Programs** stay programs. -/
theorem IsProgram.shift {p : List Stmt} {ts : List Token} (h : IsProgram p ts) (n : Nat) :
    IsProgram (p.map (Stmt.shift n)) (ts.map (Token.shift n)) := by
  rw [Stmt.shift_eq_mapLine]
  exact h.mapLine (· + n)

/-! ## §4. Evaluation. -/

/-- What is done further down, if it is done in vain. -/
def Execution.shift (n : Nat) (x : Execution) : Execution :=
  { x with result := x.result.mapError (Failure.shift n) }

/-- **Statements one after another.**  The same events and scopes, and a
failure further down. -/
theorem execute_shift (n : Nat) (p : List Stmt) (c : Chain) :
    execute (p.map (Stmt.shift n)) c = (execute p c).shift n := by
  rw [Stmt.shift_eq_mapLine, execute_mapLine, Execution.shift, Failure.shift_eq_mapLine]
  rfl

end LoxScript
