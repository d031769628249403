/-
  LoxScript.Proofs.Lines
  ────────────────────────────────
  The same program on other lines.

  A line is the only thing about a token that depends on where it stands, and
  nothing but a report ever looks at it.  So giving other lines to the tokens
  of a program, by whatever function of the old ones, commutes with what a
  program is and with what it does:

      IsProgram     — the tokens and the trees that spell them
      execute       — the same events, scopes and end, and a failure that
                      blames a token on the other line

  The function `nowhere` forgets all lines; what agrees then differs in
  nothing but its lines.
-/
import LoxScript.Evaluation
import LoxScript.Proofs.Grammar

namespace LoxScript

/-! ## §1. Other lines. -/

/-- A token on another line. -/
def Token.mapLine (f : Int → Int) (t : Token) : Token := { t with line := f t.line }

/-- An expression with its tokens on other lines. -/
def Expr.mapLine (f : Int → Int) : Expr → Expr
  | .literal v => .literal v
  | .paren e => .paren (e.mapLine f)
  | .unary op e => .unary (op.mapLine f) (e.mapLine f)
  | .binary l op r => .binary (l.mapLine f) (op.mapLine f) (r.mapLine f)
  | .name t => .name (t.mapLine f)
  | .assign t e => .assign (t.mapLine f) (e.mapLine f)

/-- A statement with its tokens on other lines. -/
def Stmt.mapLine (f : Int → Int) : Stmt → Stmt
  | .expression e => .expression (e.mapLine f)
  | .print e => .print (e.mapLine f)
  | .declare t init => .declare (t.mapLine f) (init.map (Expr.mapLine f))

/-- An error of the tokens on another line. -/
def SyntaxError.mapLine (f : Int → Int) (e : SyntaxError) : SyntaxError :=
  { e with line := f e.line }

/-- A failure that blames a token on another line.  A misuse blames none. -/
def Failure.mapLine (f : Int → Int) : Failure → Failure
  | .error e => .error { e with token := e.token.mapLine f }
  | .misuse m => .misuse m

/-- A problem on another line. -/
def Problem.mapLine (f : Int → Int) : Problem → Problem
  | .scan e => .scan { e with line := f e.line }
  | .parse e => .parse (e.mapLine f)
  | .evaluate e => .evaluate { e with token := e.token.mapLine f }
  | .unstaged message line => .unstaged message (f line)

/-- Forgets a line. -/
def nowhere (_ : Int) : Int := 0

@[simp] theorem Token.kind_mapLine (f : Int → Int) (t : Token) : (t.mapLine f).kind = t.kind :=
  rfl

@[simp] theorem Token.lexeme_mapLine (f : Int → Int) (t : Token) :
    (t.mapLine f).lexeme = t.lexeme := rfl

/-- Without their lines, tokens are what their kind, lexeme and literal are. -/
theorem Token.mapLine_nowhere_eq_iff (t u : Token) :
    t.mapLine nowhere = u.mapLine nowhere
      ↔ t.kind = u.kind ∧ t.lexeme = u.lexeme ∧ t.literal = u.literal := by
  simp only [Token.mapLine, nowhere, Token.mk.injEq, and_true]

@[simp] theorem Problem.className_mapLine (f : Int → Int) (p : Problem) :
    (p.mapLine f).className = p.className := by
  cases p <;> rfl

@[simp] theorem Problem.code?_mapLine (f : Int → Int) (p : Problem) :
    (p.mapLine f).code? = p.code? := by
  cases p <;> rfl

@[simp] theorem Problem.message_mapLine (f : Int → Int) (p : Problem) :
    (p.mapLine f).message = p.message := by
  cases p <;> rfl

/-! ## §2. Programs. -/

theorem Expr.Spells.mapLine {e : Expr} {ts : List Token} (h : e.Spells ts) (f : Int → Int) :
    (e.mapLine f).Spells (ts.map (Token.mapLine f)) := by
  induction h with
  | @literal t hk => exact .literal (t := t.mapLine f) hk
  | name hk => exact .name hk
  | paren hl hr _ ih =>
    rw [List.map_append, List.map_cons]
    exact .paren hl hr ih
  | unary _ ih => exact .unary ih
  | binary _ _ ihl ihr =>
    rw [List.map_append, List.map_cons]
    exact .binary ihl ihr
  | assign ht heq _ ih => exact .assign ht heq ih

theorem Expr.rank_mapLine (f : Int → Int) (e : Expr) : (e.mapLine f).rank = e.rank := by
  cases e <;> rfl

theorem Expr.Shaped.mapLine {e : Expr} (h : e.Shaped) (f : Int → Int) : (e.mapLine f).Shaped := by
  induction e with
  | literal _ | name _ => trivial
  | paren e ih | assign t e ih => exact ih h
  | unary op e ih =>
    obtain ⟨hop, hrank, he⟩ := h
    exact ⟨hop, by rwa [Expr.rank_mapLine], ih he⟩
  | binary l op r ihl ihr =>
    obtain ⟨hop, hlrank, hrrank, hl, hr⟩ := h
    exact ⟨hop, by rwa [Expr.rank_mapLine], by rwa [Expr.rank_mapLine], ihl hl, ihr hr⟩

theorem Stmt.Spells.mapLine {s : Stmt} {ts : List Token} (h : s.Spells ts) (f : Int → Int) :
    (s.mapLine f).Spells (ts.map (Token.mapLine f)) := by
  cases h with
  | expression hsemi he =>
    rw [List.map_append]
    exact .expression hsemi (he.mapLine f)
  | print hword hsemi he =>
    rw [List.map_append, List.map_cons]
    exact .print hword hsemi (he.mapLine f)
  | declare hword ht hsemi => exact .declare hword ht hsemi
  | declareWith hword ht heq hsemi he =>
    rw [List.map_append, List.map_cons, List.map_cons, List.map_cons]
    exact .declareWith hword ht heq hsemi (he.mapLine f)

theorem Stmt.Shaped.mapLine {s : Stmt} (h : s.Shaped) (f : Int → Int) : (s.mapLine f).Shaped := by
  match s with
  | .expression e | .print e | .declare _ (some e) => exact Expr.Shaped.mapLine (e := e) h f
  | .declare _ none => trivial

/-- **Programs** stay programs. -/
theorem IsProgram.mapLine {p : List Stmt} {ts : List Token} (h : IsProgram p ts)
    (f : Int → Int) : IsProgram (p.map (Stmt.mapLine f)) (ts.map (Token.mapLine f)) := by
  obtain ⟨hspells, hshaped⟩ := h
  induction hspells with
  | nil => exact .nil
  | cons hs _ ih =>
    obtain ⟨hfirst, hrest⟩ := List.forall_mem_cons.1 hshaped
    rw [List.map_append, List.map_cons]
    exact .cons (hs.mapLine f) (hfirst.mapLine f) (ih hrest)

/-! ## §3. Evaluation. -/

theorem applyUnary_mapLine (f : Int → Int) (op : Token) (v : Value) :
    applyUnary (op.mapLine f) v = (applyUnary op v).mapError (Failure.mapLine f) := by
  unfold applyUnary
  rw [Token.kind_mapLine]
  split
  · cases v <;> rfl
  · rfl
  · rfl

theorem applyBinary_mapLine (f : Int → Int) (op : Token) (v w : Value) :
    applyBinary (op.mapLine f) v w = (applyBinary op v w).mapError (Failure.mapLine f) := by
  unfold applyBinary
  rw [Token.kind_mapLine]
  split
  · cases v <;> cases w <;> rfl
  · rfl
  · rfl
  · split
    · rfl
    · cases v <;> cases w <;> rfl

/-- **Expressions.**  The same value, and a failure on another line. -/
theorem Expr.evaluate_mapLine (f : Int → Int) (e : Expr) (c : Chain) :
    (e.mapLine f).evaluate c
      = ((e.evaluate c).1.mapError (Failure.mapLine f), (e.evaluate c).2) := by
  induction e generalizing c with
  | literal v => cases v <;> rfl
  | paren e ih => exact ih c
  | unary op e ih =>
    simp only [Expr.mapLine, Expr.evaluate, ih]
    obtain ⟨result, c'⟩ := e.evaluate c
    cases result with
    | ok v => simp only [Except.mapError, applyUnary_mapLine]
    | error e => rfl
  | binary l op r ihl ihr =>
    simp only [Expr.mapLine, Expr.evaluate, ihl]
    obtain ⟨result, c'⟩ := l.evaluate c
    cases result with
    | error e => rfl
    | ok v =>
      simp only [Except.mapError, ihr]
      obtain ⟨result', c''⟩ := r.evaluate c'
      cases result' with
      | ok w => simp only [Except.mapError, applyBinary_mapLine]
      | error e => rfl
  | name t =>
    simp only [Expr.mapLine, Expr.evaluate, readName, Token.lexeme_mapLine]
    cases c.get? t.lexeme <;> rfl
  | assign t e ih =>
    simp only [Expr.mapLine, Expr.evaluate, ih]
    obtain ⟨result, c'⟩ := e.evaluate c
    cases result with
    | ok v =>
      simp only [Except.mapError, writeName, Token.lexeme_mapLine]
      cases c'.assign? t.lexeme v <;> rfl
    | error e => rfl

/-- What is done, and a failure on another line. -/
def Execution.mapLine (f : Int → Int) (x : Execution) : Execution :=
  { x with result := x.result.mapError (Failure.mapLine f) }

theorem Stmt.execute_mapLine (f : Int → Int) (s : Stmt) (c : Chain) :
    (s.mapLine f).execute c = (s.execute c).mapLine f := by
  match s with
  | .expression e =>
    simp only [Stmt.mapLine, Stmt.execute, Expr.evaluate_mapLine]
    obtain ⟨result, c'⟩ := e.evaluate c
    cases result <;> rfl
  | .print e =>
    simp only [Stmt.mapLine, Stmt.execute, Expr.evaluate_mapLine]
    obtain ⟨result, c'⟩ := e.evaluate c
    cases result with
    | ok v =>
      simp only [Except.mapError]
      cases printValue v <;> rfl
    | error e => rfl
  | .declare t none => rfl
  | .declare t (some e) =>
    simp only [Stmt.mapLine, Option.map_some, Stmt.execute, Expr.evaluate_mapLine]
    obtain ⟨result, c'⟩ := e.evaluate c
    cases result <;> rfl

/-- **Statements one after another.**  The same events and scopes, and a
failure on another line. -/
theorem execute_mapLine (f : Int → Int) (p : List Stmt) (c : Chain) :
    execute (p.map (Stmt.mapLine f)) c = (execute p c).mapLine f := by
  induction p generalizing c with
  | nil => rfl
  | cons s p ih =>
    simp only [List.map_cons, execute, Stmt.execute_mapLine]
    obtain ⟨es, result, c'⟩ := s.execute c
    cases result with
    | error e => rfl
    | ok u =>
      simp only [Execution.mapLine, Except.mapError, ih]

end LoxScript
