/-
  LoxScript.Proofs.Reader.Kinds
  ────────────────────────────────
  Nothing but the kinds of the tokens steers the reader.

  Let a relation `R` hold between the tokens of two lists, place by place,
  and let it hold only between tokens of one kind.  Then both lists are read
  alike: the reader goes through the same states, and what it makes of the
  one list differs from what it makes of the other in the tokens alone, which
  `R` relates again.  Lexemes, literals and lines are handed on, and nothing
  is asked of them.

      SyntaxError.Matches R   — the same cause, blamed on tokens related by `R`
      Expr.Matches R          — the same tree over tokens related by `R`
      State.Matches R         — the same state, with such trees on its stack

      List.Forall₂ R ts us  →  List.Forall₂ (Attempt.Matches R) (attempts ts) (attempts us)
-/
import LoxScript.Proofs.Reader.Steps

namespace LoxScript

/-! ## §1. What is read of related tokens. -/

/-- The same tree over related tokens. -/
inductive Expr.Matches (R : Token → Token → Prop) : Expr → Expr → Prop where
  | literal {t u : Token} : R t u → Matches R (.literal t.literal) (.literal u.literal)
  | paren {e e' : Expr} : Matches R e e' → Matches R (.paren e) (.paren e')
  | unary {op op' : Token} {e e' : Expr} :
      R op op' → Matches R e e' → Matches R (.unary op e) (.unary op' e')
  | binary {l l' r r' : Expr} {op op' : Token} :
      Matches R l l' → R op op' → Matches R r r' → Matches R (.binary l op r) (.binary l' op' r')
  | name {t u : Token} : R t u → Matches R (.name t) (.name u)
  | assign {t u : Token} {e e' : Expr} :
      R t u → Matches R e e' → Matches R (.assign t e) (.assign u e')

/-- The same statement over related tokens. -/
inductive Stmt.Matches (R : Token → Token → Prop) : Stmt → Stmt → Prop where
  | expression {e e' : Expr} : e.Matches R e' → Matches R (.expression e) (.expression e')
  | print {e e' : Expr} : e.Matches R e' → Matches R (.print e) (.print e')
  | declare {t u : Token} : R t u → Matches R (.declare t none) (.declare u none)
  | declareWith {t u : Token} {e e' : Expr} :
      R t u → e.Matches R e' → Matches R (.declare t (some e)) (.declare u (some e'))

/-- The same error, of a token that cannot stand where it stands or of what is
missing behind a token. -/
inductive SyntaxError.Matches (R : Token → Token → Prop) : SyntaxError → SyntaxError → Prop where
  | stray {t u : Token} :
      R t u → Matches R ⟨.strayToken t.lexeme, t.line⟩ ⟨.strayToken u.lexeme, u.line⟩
  | missing {cause : SyntaxCause} {t u : Token} :
      cause.isMissing → R t u → Matches R ⟨cause, t.line⟩ ⟨cause, u.line⟩

namespace Reader

inductive Attempt.Matches (R : Token → Token → Prop) : Attempt → Attempt → Prop where
  | error {e e' : SyntaxError} : e.Matches R e' → Matches R (.error e) (.error e')
  | ok {s s' : Stmt} : s.Matches R s' → Matches R (.ok s) (.ok s')

/-! ## §2. States. -/

inductive Frame.Matches (R : Token → Token → Prop) : Frame → Frame → Prop where
  | unary {op op' : Token} : R op op' → Matches R (.unary op) (.unary op')
  | binary {n : Nat} {l l' : Expr} {op op' : Token} :
      l.Matches R l' → R op op' → Matches R (.binary n l op) (.binary n l' op')
  | assign {e e' : Expr} {eq eq' : Token} :
      e.Matches R e' → R eq eq' → Matches R (.assign e eq) (.assign e' eq')
  | group : Matches R .group .group

inductive Opening.Matches (R : Token → Token → Prop) : Opening → Opening → Prop where
  | expression : Matches R .expression .expression
  | print : Matches R .print .print
  | declare {t u : Token} : R t u → Matches R (.declare t) (.declare u)

inductive State.Matches (R : Token → Token → Prop) : State → State → Prop where
  | fresh : Matches R .fresh .fresh
  | naming {t u : Token} : R t u → Matches R (.naming t) (.naming u)
  | named {t u : Token} : R t u → Matches R (.named t) (.named u)
  | operand {o o' : Opening} {k k' : List Frame} {t u : Token} :
      o.Matches R o' → List.Forall₂ (Frame.Matches R) k k' → R t u →
      Matches R (.operand o k t) (.operand o' k' u)
  | operator {o o' : Opening} {k k' : List Frame} {e e' : Expr} {t u : Token} :
      o.Matches R o' → List.Forall₂ (Frame.Matches R) k k' → e.Matches R e' → R t u →
      Matches R (.operator o k e t) (.operator o' k' e' u)
  | skipping : Matches R .skipping .skipping

structure Step.Matches (R : Token → Token → Prop) (r r' : Step) : Prop where
  attempts : List.Forall₂ (Attempt.Matches R) r.attempts r'.attempts
  state : r.state.Matches R r'.state

/-- What is closed on two stacks. -/
inductive Closed.Matches (R : Token → Token → Prop) :
    Except SyntaxError Closed → Except SyntaxError Closed → Prop where
  | error {e e' : SyntaxError} : e.Matches R e' → Matches R (.error e) (.error e')
  | whole {e e' : Expr} : e.Matches R e' → Matches R (.ok (.whole e)) (.ok (.whole e'))
  | inside {e e' : Expr} {k k' : List Frame} :
      e.Matches R e' → List.Forall₂ (Frame.Matches R) k k' →
      Matches R (.ok (.inside e k)) (.ok (.inside e' k'))

/-! ## §3. Ending operators. -/

variable {R : Token → Token → Prop}

theorem settle_matches (level : Nat) {k k' : List Frame} {e e' : Expr}
    (hk : List.Forall₂ (Frame.Matches R) k k') (he : e.Matches R e') :
    (settle level e k).1.Matches R (settle level e' k').1
      ∧ List.Forall₂ (Frame.Matches R) (settle level e k).2 (settle level e' k').2 := by
  induction hk generalizing e e' with
  | nil => exact ⟨he, .nil⟩
  | cons hf hk ih =>
    cases hf with
    | unary hop => exact ih (.unary hop he)
    | @binary n _ _ _ _ hl hop =>
      unfold settle
      by_cases hn : level ≤ n
      · rw [if_pos hn, if_pos hn]
        exact ih (.binary hl hop he)
      · rw [if_neg hn, if_neg hn]
        exact ⟨he, .cons (.binary hl hop) hk⟩
    | assign ht heq => exact ⟨he, .cons (.assign ht heq) hk⟩
    | group => exact ⟨he, .cons .group hk⟩

theorem close_matches {k k' : List Frame} {e e' : Expr}
    (hk : List.Forall₂ (Frame.Matches R) k k') (he : e.Matches R e') :
    Closed.Matches R (close e k) (close e' k') := by
  induction hk generalizing e e' with
  | nil => exact .whole he
  | cons hf hk ih =>
    cases hf with
    | unary hop => exact ih (.unary hop he)
    | binary hl hop => exact ih (.binary hl hop he)
    | group => exact .inside he hk
    | assign ht heq =>
      -- both targets are names, or neither is
      cases ht with
      | name ht => exact ih (.assign ht he)
      | literal _ | paren _ | unary _ _ | binary _ _ _ | assign _ _ => exact .error (.stray heq)

/-! ## §4. One token. -/

theorem Opening.Matches.statement {o o' : Opening} {e e' : Expr} (ho : o.Matches R o')
    (he : e.Matches R e') : (o.statement e).Matches R (o'.statement e') := by
  cases ho with
  | expression => exact .expression he
  | print => exact .print he
  | declare ht => exact .declareWith ht he

theorem Opening.Matches.unclosed {o o' : Opening} (ho : o.Matches R o') :
    o.unclosed = o'.unclosed := by
  cases ho <;> rfl

variable (hR : ∀ t u, R t u → t.kind = u.kind) {t u : Token} (htu : R t u)
include hR htu

theorem readOperand_matches {o o' : Opening} {k k' : List Frame} (ho : o.Matches R o')
    (hk : List.Forall₂ (Frame.Matches R) k k') :
    (readOperand o k t).Matches R (readOperand o' k' u) := by
  -- every question is about the kind, so both tokens answer it alike
  unfold readOperand
  rw [hR t u htu]
  split
  · exact ⟨.nil, .operator ho hk (.literal htu) htu⟩
  · split
    · exact ⟨.nil, .operator ho hk (.name htu) htu⟩
    · split
      · exact ⟨.nil, .operand ho (.cons .group hk) htu⟩
      · split
        · exact ⟨.nil, .operand ho (.cons (.unary htu) hk) htu⟩
        · exact ⟨.cons (.error (.stray htu)) .nil, .skipping⟩

theorem readStart_matches : (readStart t).Matches R (readStart u) := by
  unfold readStart
  rw [hR t u htu]
  split
  · exact ⟨.nil, .naming htu⟩
  · split
    · exact ⟨.nil, .operand .print .nil htu⟩
    · exact readOperand_matches hR htu .expression .nil

theorem skip_matches : (skip t).Matches R (skip u) := by
  unfold skip
  rw [hR t u htu]
  split
  · exact ⟨.nil, .fresh⟩
  · split
    · exact readStart_matches hR htu
    · exact ⟨.nil, .skipping⟩

theorem failBefore_matches {e e' : SyntaxError} (he : e.Matches R e') :
    (failBefore e t).Matches R (failBefore e' u) := by
  obtain ⟨hattempts, hstate⟩ := skip_matches hR htu
  exact ⟨.cons (.error he) hattempts, hstate⟩

theorem readSemicolon_matches {cause : SyntaxCause} {s s' : Stmt} {last last' : Token}
    (hcause : cause.isMissing) (hs : s.Matches R s') (hlast : R last last') :
    (readSemicolon cause s last t).Matches R (readSemicolon cause s' last' u) := by
  unfold readSemicolon
  rw [hR t u htu]
  split
  · exact ⟨.cons (.ok hs) .nil, .fresh⟩
  · exact failBefore_matches hR htu (.missing hcause hlast)

theorem readOperator_matches {o o' : Opening} {k k' : List Frame} {e e' : Expr}
    {last last' : Token} (ho : o.Matches R o') (hk : List.Forall₂ (Frame.Matches R) k k')
    (he : e.Matches R e') (hlast : R last last') :
    (readOperator o k e last t).Matches R (readOperator o' k' e' last' u) := by
  unfold readOperator
  rw [hR t u htu]
  cases u.kind.level? with
  | some level =>
    obtain ⟨hl, hrest⟩ := settle_matches level hk he
    exact ⟨.nil, .operand ho (.cons (.binary hl htu) hrest) htu⟩
  | none =>
    by_cases hequal : u.kind = .equal
    · rw [if_pos hequal, if_pos hequal]
      obtain ⟨hl, hrest⟩ := settle_matches 0 hk he
      exact ⟨.nil, .operand ho (.cons (.assign hl htu) hrest) htu⟩
    · rw [if_neg hequal, if_neg hequal]
      have hclosed := close_matches hk he
      generalize close e k = c, close e' k' = c' at hclosed
      cases hclosed with
      | error herr => exact failBefore_matches hR htu herr
      | whole he' =>
        rw [← ho.unclosed]
        exact readSemicolon_matches hR htu o.isMissing_unclosed (ho.statement he') hlast
      | inside he' hk' =>
        dsimp only
        split
        · exact ⟨.nil, .operator ho hk' (.paren he') htu⟩
        · exact failBefore_matches hR htu (.missing rfl hlast)

/-- **One token.**  In the same state, tokens of one kind do the same. -/
theorem read_matches {s s' : State} (h : s.Matches R s') :
    (s.read t).Matches R (s'.read u) := by
  cases h with
  | fresh => exact readStart_matches hR htu
  | naming hlast =>
    show Step.Matches R (if t.kind = .identifier then _ else _)
      (if u.kind = .identifier then _ else _)
    rw [hR t u htu]
    split
    · exact ⟨.nil, .named htu⟩
    · exact failBefore_matches hR htu (.missing rfl hlast)
  | named hname =>
    show Step.Matches R (if t.kind = .equal then _ else _) (if u.kind = .equal then _ else _)
    rw [hR t u htu]
    split
    · exact ⟨.nil, .operand (.declare hname) .nil htu⟩
    · exact readSemicolon_matches hR htu rfl (.declare hname) hname
  | operand ho hk _ => exact readOperand_matches hR htu ho hk
  | operator ho hk he hlast => exact readOperator_matches hR htu ho hk he hlast
  | skipping => exact skip_matches hR htu

omit hR htu

/-! ## §5. All tokens. -/

theorem finish_matches {s s' : State} (h : s.Matches R s') :
    List.Forall₂ (Attempt.Matches R) s.finish s'.finish := by
  cases h with
  | fresh | skipping => exact .nil
  | naming hlast | named hlast | operand _ _ hlast =>
    exact .cons (.error (.missing rfl hlast)) .nil
  | @operator o o' k k' e e' _ _ ho hk he hlast =>
    have hclosed := close_matches hk he
    unfold State.finish
    dsimp only
    generalize close e k = c, close e' k' = c' at hclosed
    cases hclosed with
    | error herr => exact .cons (.error herr) .nil
    | whole _ =>
      rw [← ho.unclosed]
      exact .cons (.error (.missing o.isMissing_unclosed hlast)) .nil
    | inside _ _ => exact .cons (.error (.missing rfl hlast)) .nil

include hR

theorem State.attempts_matches {s s' : State} {ts us : List Token}
    (h : s.Matches R s') (hts : List.Forall₂ R ts us) :
    List.Forall₂ (Attempt.Matches R) (s.attempts ts) (s'.attempts us) := by
  induction hts generalizing s s' with
  | nil => exact finish_matches h
  | cons ht _ ih =>
    obtain ⟨hattempts, hstate⟩ := read_matches hR ht h
    exact List.rel_append hattempts (ih hstate)

theorem beforeEnd_matches {ts us : List Token} (hts : List.Forall₂ R ts us) :
    List.Forall₂ R (beforeEnd ts) (beforeEnd us) := by
  unfold beforeEnd
  induction hts with
  | nil => exact .nil
  | @cons t u ts us htu _ ih =>
    rw [List.takeWhile_cons, List.takeWhile_cons, hR t u htu]
    split
    · exact .cons htu ih
    · exact .nil

/-- **All tokens.**  The attempts at statements are the same, over related
tokens. -/
theorem attempts_matches {ts us : List Token} (hts : List.Forall₂ R ts us) :
    List.Forall₂ (Attempt.Matches R) (attempts ts) (attempts us) :=
  State.attempts_matches hR .fresh (beforeEnd_matches hR hts)

end Reader

/-! ## §6. Programs. -/

/-- Two programs, or two lists of errors. -/
inductive Program.Matches (R : Token → Token → Prop) :
    Except (List SyntaxError) (List Stmt) → Except (List SyntaxError) (List Stmt) → Prop where
  | error {es es' : List SyntaxError} :
      List.Forall₂ (SyntaxError.Matches R) es es' → Matches R (.error es) (.error es')
  | ok {p p' : List Stmt} :
      List.Forall₂ (Stmt.Matches R) p p' → Matches R (.ok p) (.ok p')

variable {R : Token → Token → Prop} {ts us : List Token}

theorem syntaxErrors_matches (hR : ∀ t u, R t u → t.kind = u.kind)
    (hts : List.Forall₂ R ts us) :
    List.Forall₂ (SyntaxError.Matches R) (syntaxErrors ts) (syntaxErrors us) := by
  refine List.rel_filterMap ?_ (Reader.attempts_matches hR hts)
  intro a a' ha
  cases ha with
  | error he => exact .some he
  | ok _ => exact .none

theorem statements_matches (hR : ∀ t u, R t u → t.kind = u.kind)
    (hts : List.Forall₂ R ts us) :
    List.Forall₂ (Stmt.Matches R) (statements ts) (statements us) := by
  refine List.rel_filterMap ?_ (Reader.attempts_matches hR hts)
  intro a a' ha
  cases ha with
  | error _ => exact .none
  | ok hs => exact .some hs

/-- **ONLY KINDS STEER THE READER.**  Tokens of the same kinds are the same
program, or they have the same errors, over the tokens of either list. -/
theorem programOf_matches (hR : ∀ t u, R t u → t.kind = u.kind) (hts : List.Forall₂ R ts us) :
    Program.Matches R (programOf ts) (programOf us) := by
  have herrors := syntaxErrors_matches hR hts
  have hstatements := statements_matches hR hts
  unfold programOf
  generalize syntaxErrors ts = es, syntaxErrors us = es' at herrors
  cases herrors with
  | nil => exact .ok hstatements
  | cons he hes => exact .error (.cons he hes)

end LoxScript
