/-
  LoxScript.Proofs.Grammar
  ────────────────────────────────
  What a program is, without a word about how one is read.

  Tokens are a program when two things hold of some trees.  The trees *spell*
  the tokens: walked from left to right, they give back every token once and
  in order.  And the trees have the *shape* that the precedence of their
  operators asks for.  How tight an expression binds is its rank:

      0      an assignment
      1..4   an equality, a comparison, a sum, a product
      5      a unary operator with its operand
      6      a literal, a name, a parenthesis

  So `a - b - c` spells two trees, `(a - b) - c` and `a - (b - c)`, and only
  the first one is shaped.

      IsProgram p ts   — the statements `p` spell `ts` and are shaped
-/
import LoxScript.Tree
import Mathlib

namespace LoxScript

/-! ## §1. Kinds that the grammar tells apart. -/

namespace Kind

/-- The kinds that are an expression by themselves. -/
def literals : List Kind := [number, string, wordTrue, wordFalse, wordNil]

/-- The kinds that stand before their one operand. -/
def unaryOperators : List Kind := [bang, minus]

/-- How tight a kind binds between two operands; none binds at 0. -/
def precedence : Kind → Nat
  | bangEqual | equalEqual => 1
  | greater | greaterEqual | less | lessEqual => 2
  | minus | plus => 3
  | slash | star => 4
  | _ => 0

theorem isLiteral_iff (k : Kind) : k.isLiteral = true ↔ k ∈ literals := by
  cases k <;> decide

end Kind

/-! ## §2. Spelling. -/

/-- The tokens of an expression from left to right. -/
inductive Expr.Spells : Expr → List Token → Prop where
  | literal {t : Token} : t.kind ∈ Kind.literals → Spells (.literal t.literal) [t]
  | name {t : Token} : t.kind = .identifier → Spells (.name t) [t]
  | paren {l r : Token} {e : Expr} {ts : List Token} :
      l.kind = .leftParen → r.kind = .rightParen → Spells e ts →
      Spells (.paren e) (l :: ts ++ [r])
  | unary {op : Token} {e : Expr} {ts : List Token} :
      Spells e ts → Spells (.unary op e) (op :: ts)
  | binary {op : Token} {l r : Expr} {ls rs : List Token} :
      Spells l ls → Spells r rs → Spells (.binary l op r) (ls ++ op :: rs)
  | assign {t eq : Token} {e : Expr} {ts : List Token} :
      t.kind = .identifier → eq.kind = .equal → Spells e ts →
      Spells (.assign t e) (t :: eq :: ts)

/-- The tokens of a statement from left to right. -/
inductive Stmt.Spells : Stmt → List Token → Prop where
  | expression {semi : Token} {e : Expr} {ts : List Token} :
      semi.kind = .semicolon → e.Spells ts → Spells (.expression e) (ts ++ [semi])
  | print {word semi : Token} {e : Expr} {ts : List Token} :
      word.kind = .wordPrint → semi.kind = .semicolon → e.Spells ts →
      Spells (.print e) (word :: ts ++ [semi])
  | declare {word t semi : Token} :
      word.kind = .wordVar → t.kind = .identifier → semi.kind = .semicolon →
      Spells (.declare t none) [word, t, semi]
  | declareWith {word t eq semi : Token} {e : Expr} {ts : List Token} :
      word.kind = .wordVar → t.kind = .identifier → eq.kind = .equal →
      semi.kind = .semicolon → e.Spells ts →
      Spells (.declare t (some e)) (word :: t :: eq :: ts ++ [semi])

/-- The tokens of statements one after another. -/
inductive SpellsAll : List Stmt → List Token → Prop where
  | nil : SpellsAll [] []
  | cons {s : Stmt} {p : List Stmt} {ts us : List Token} :
      s.Spells ts → SpellsAll p us → SpellsAll (s :: p) (ts ++ us)

/-! ## §3. Shape. -/

/-- How tight the outermost construct of an expression binds. -/
def Expr.rank : Expr → Nat
  | .assign _ _ => 0
  | .binary _ op _ => op.kind.precedence
  | .unary _ _ => 5
  | .literal _ | .paren _ | .name _ => 6

/-- Every operator stands over operands that bind tight enough: on the left
as tight as itself, on the right tighter. -/
def Expr.Shaped : Expr → Prop
  | .literal _ | .name _ => True
  | .paren e | .assign _ e => e.Shaped
  | .unary op e => op.kind ∈ Kind.unaryOperators ∧ 5 ≤ e.rank ∧ e.Shaped
  | .binary l op r =>
    0 < op.kind.precedence ∧ op.kind.precedence ≤ l.rank ∧ op.kind.precedence < r.rank
      ∧ l.Shaped ∧ r.Shaped

/-- Shape of the expression in a statement, if there is one. -/
def Stmt.Shaped : Stmt → Prop
  | .expression e | .print e | .declare _ (some e) => e.Shaped
  | .declare _ none => True

/-- Tokens are a program: its statements spell them and are shaped. -/
structure IsProgram (p : List Stmt) (ts : List Token) : Prop where
  spells : SpellsAll p ts
  shaped : ∀ s ∈ p, s.Shaped

/-! ## §4. First facts. -/

theorem Kind.precedence_le (k : Kind) : k.precedence ≤ 4 := by
  cases k <;> decide

theorem Kind.ne_of_precedence_pos {k k' : Kind} (h : 0 < k.precedence)
    (h' : k'.precedence = 0) : k ≠ k' := by
  rintro rfl
  omega

/-- No expression begins with a keyword that begins a statement. -/
theorem Expr.Spells.exists_cons {e : Expr} {ts : List Token} (h : e.Spells ts) (hs : e.Shaped) :
    ∃ t us, ts = t :: us ∧ t.kind ≠ .wordVar ∧ t.kind ≠ .wordPrint := by
  induction h with
  | literal hk =>
    exact ⟨_, _, rfl, ne_of_mem_of_not_mem hk (by decide), ne_of_mem_of_not_mem hk (by decide)⟩
  | name hk => exact ⟨_, _, rfl, by simp [hk], by simp [hk]⟩
  | paren hl _ _ _ => exact ⟨_, _, rfl, by simp [hl], by simp [hl]⟩
  | unary _ _ =>
    obtain ⟨hop, _, _⟩ := hs
    exact ⟨_, _, rfl, ne_of_mem_of_not_mem hop (by decide), ne_of_mem_of_not_mem hop (by decide)⟩
  | binary _ _ ihl _ =>
    obtain ⟨_, _, _, hsl, _⟩ := hs
    obtain ⟨t, us, rfl, hvar, hprint⟩ := ihl hsl
    exact ⟨t, _, rfl, hvar, hprint⟩
  | assign ht _ _ _ => exact ⟨_, _, rfl, by simp [ht], by simp [ht]⟩

theorem Expr.Spells.kind_ne_endOfText {e : Expr} {ts : List Token} (h : e.Spells ts)
    (hs : e.Shaped) : ∀ t ∈ ts, t.kind ≠ .endOfText := by
  induction h with
  | literal hk => exact List.forall_mem_singleton.2 (ne_of_mem_of_not_mem hk (by decide))
  | name hk => exact List.forall_mem_singleton.2 (by simp [hk])
  | paren hl hr _ ih =>
    rw [List.forall_mem_append, List.forall_mem_cons, List.forall_mem_singleton]
    exact ⟨⟨by simp [hl], ih hs⟩, by simp [hr]⟩
  | unary _ ih =>
    obtain ⟨hop, _, hshaped⟩ := hs
    rw [List.forall_mem_cons]
    exact ⟨ne_of_mem_of_not_mem hop (by decide), ih hshaped⟩
  | binary _ _ ihl ihr =>
    obtain ⟨hop, _, _, hl, hr⟩ := hs
    rw [List.forall_mem_append, List.forall_mem_cons]
    exact ⟨ihl hl, Kind.ne_of_precedence_pos hop rfl, ihr hr⟩
  | assign ht heq _ ih =>
    rw [List.forall_mem_cons, List.forall_mem_cons]
    exact ⟨by simp [ht], by simp [heq], ih hs⟩

theorem Stmt.Spells.kind_ne_endOfText {s : Stmt} {ts : List Token} (h : s.Spells ts)
    (hs : s.Shaped) : ∀ t ∈ ts, t.kind ≠ .endOfText := by
  cases h with
  | expression hsemi he =>
    rw [List.forall_mem_append, List.forall_mem_singleton]
    exact ⟨he.kind_ne_endOfText hs, by simp [hsemi]⟩
  | print hword hsemi he =>
    rw [List.forall_mem_append, List.forall_mem_cons, List.forall_mem_singleton]
    exact ⟨⟨by simp [hword], he.kind_ne_endOfText hs⟩, by simp [hsemi]⟩
  | declare hword ht hsemi => simp [hword, ht, hsemi]
  | declareWith hword ht heq hsemi he =>
    rw [List.forall_mem_append, List.forall_mem_cons, List.forall_mem_cons,
      List.forall_mem_cons, List.forall_mem_singleton]
    exact ⟨⟨by simp [hword], by simp [ht], by simp [heq], he.kind_ne_endOfText hs⟩,
      by simp [hsemi]⟩

/-- No end token stands inside a program. -/
theorem IsProgram.kind_ne_endOfText {p : List Stmt} {ts : List Token} (h : IsProgram p ts) :
    ∀ t ∈ ts, t.kind ≠ .endOfText := by
  obtain ⟨hspells, hshaped⟩ := h
  induction hspells with
  | nil => simp
  | cons hs _ ih =>
    obtain ⟨hfirst, hrest⟩ := List.forall_mem_cons.1 hshaped
    rw [List.forall_mem_append]
    exact ⟨hs.kind_ne_endOfText hfirst, ih hrest⟩

theorem IsProgram.nil : IsProgram [] [] := by
  refine ⟨.nil, ?_⟩
  intro s hs
  exact absurd hs List.not_mem_nil

theorem IsProgram.cons {s : Stmt} {p : List Stmt} {ts us : List Token} (hspells : s.Spells ts)
    (hshaped : s.Shaped) (hp : IsProgram p us) : IsProgram (s :: p) (ts ++ us) := by
  exact ⟨.cons hspells hp.spells, List.forall_mem_cons.2 ⟨hshaped, hp.shaped⟩⟩

/-! ## §5. A program with every construct. -/

/-- A token of which only the kind matters. -/
def bare (kind : Kind) : Token := ⟨kind, kind.name, .nil, 1⟩

/-- The tokens of `print a = -a - 1 - (a = 1); var a;`. -/
def sampleTokens : List Token :=
  [bare .wordPrint, bare .identifier, bare .equal, bare .minus, bare .identifier, bare .minus,
   bare .number, bare .minus, bare .leftParen, bare .identifier, bare .equal, bare .number,
   bare .rightParen, bare .semicolon, bare .wordVar, bare .identifier, bare .semicolon]

/-- Their program: differences group to the left, assignments to the right. -/
def sampleProgram : List Stmt :=
  let a := bare .identifier
  let one := Expr.literal .nil
  [.print (.assign a (.binary
      (.binary (.unary (bare .minus) (.name a)) (bare .minus) one) (bare .minus)
      (.paren (.assign a one)))),
   .declare a none]

theorem isProgram_sample : IsProgram sampleProgram sampleTokens := by
  have ha : (Expr.name (bare .identifier)).Spells [bare .identifier] := .name rfl
  have hone : (Expr.literal .nil).Spells [bare .number] :=
    .literal (t := bare .number) (by decide)
  have hparen : (Expr.paren (.assign (bare .identifier) (.literal .nil))).Spells
      [bare .leftParen, bare .identifier, bare .equal, bare .number, bare .rightParen] :=
    .paren rfl rfl (.assign rfl rfl hone)
  have hleft : (Expr.binary (.unary (bare .minus) (.name (bare .identifier))) (bare .minus)
      (.literal .nil)).Spells [bare .minus, bare .identifier, bare .minus, bare .number] :=
    ha.unary.binary hone
  refine .cons (.print rfl rfl (.assign rfl rfl (hleft.binary hparen))) ?_
    (.cons (.declare rfl rfl rfl) trivial .nil)
  simp [Stmt.Shaped, Expr.Shaped, Expr.rank, bare, Kind.precedence, Kind.unaryOperators]

end LoxScript
