/-
  LoxScript.Proofs.Evaluation.Errors
  ────────────────────────────────
  Every failure is at a token of the program.

  Evaluation can fail where an operator is applied and where a name is looked
  up, and nowhere else.  These are the *failure points* of a tree, listed in
  the order in which evaluation gets to them:

      a = b + -c      ⟶      b  c  -  +  a

  A program that spells some tokens has its failure points among them, and
  none of them is a literal.
-/
import LoxScript.Proofs.Evaluation.Occurrences
import LoxScript.Proofs.Grammar

namespace LoxScript

/-! ## §1. Failure points. -/

/-- The operators and names of an expression, in order of evaluation. -/
def Expr.failurePoints : Expr → List Token
  | .literal _ => []
  | .paren e => e.failurePoints
  | .unary op e => e.failurePoints ++ [op]
  | .binary l op r => l.failurePoints ++ r.failurePoints ++ [op]
  | .name t => [t]
  | .assign t e => e.failurePoints ++ [t]

/-- Those of the expression in a statement, if there is one. -/
def Stmt.failurePoints : Stmt → List Token
  | .expression e | .print e | .declare _ (some e) => e.failurePoints
  | .declare _ none => []

/-- A cause that evaluation itself finds, and has a wording for. -/
def EvalCause.isWorded : EvalCause → Bool
  | .operandNotNumber | .operandsNotNumbers | .operandsNotAddable | .unboundName => true
  | .custom _ => false

/-- An error at one of some tokens. -/
structure EvalError.IsAt (ts : List Token) (e : EvalError) : Prop where
  mem : e.token ∈ ts
  worded : e.cause.isWorded

/-- A result that is no error, or an error at one of some tokens. -/
def FailsAt {α : Type} (ts : List Token) (r : Except Failure α) : Prop :=
  ∀ e, r = .error (.error e) → e.IsAt ts

section Results

variable {α : Type} {ts us : List Token}

theorem failsAt_ok (a : α) : FailsAt ts (.ok a) := by
  intro e he
  cases he

theorem failsAt_misuse (m : Misuse) : FailsAt ts (.error (.misuse m) : Except Failure α) := by
  intro e he
  cases Except.error.inj he

theorem failsAt_fail {cause : EvalCause} (hcause : cause.isWorded) {t : Token}
    (ht : t ∈ ts) : FailsAt ts (fail cause t : Except Failure α) := by
  intro e he
  obtain rfl := Failure.error.inj (Except.error.inj he)
  exact ⟨ht, hcause⟩

theorem FailsAt.mono {r : Except Failure α} (h : FailsAt ts r) (hsub : ts ⊆ us) : FailsAt us r :=
  fun e he => ⟨hsub (h e he).mem, (h e he).worded⟩

/-- A failure is handed on as it is. -/
theorem FailsAt.error {f : Failure} {β : Type} (h : FailsAt ts (.error f : Except Failure α)) :
    FailsAt ts (.error f : Except Failure β) :=
  fun e he => h e (congrArg Except.error (Except.error.inj he))

end Results

/-! ## §2. Operators and names. -/

/-- What an operator makes of operands: a value, or a failure of its own that is
not for want of a name. -/
inductive Applied (op : Token) : Except Failure Value → Prop where
  | value (v : Value) : Applied op (.ok v)
  | misuse (m : Misuse) : Applied op (.error (.misuse m))
  | operand {cause : EvalCause} :
      cause.isWorded → cause ≠ .unboundName → Applied op (fail cause op)

theorem applied_applyUnary (op : Token) (v : Value) : Applied op (applyUnary op v) := by
  unfold applyUnary
  split
  · split
    · exact .value _
    · exact .operand rfl (by decide)
  · exact .value _
  · exact .misuse _

theorem applied_applyBinary (op : Token) (v w : Value) : Applied op (applyBinary op v w) := by
  unfold applyBinary
  split
  · unfold add
    split
    · exact .value _
    · exact .value _
    · exact .operand rfl (by decide)
  · exact .value _
  · exact .value _
  · split
    · exact .misuse _
    · split
      · exact .value _
      · exact .operand rfl (by decide)

theorem Applied.failsAt {op : Token} {r : Except Failure Value} (h : Applied op r) :
    FailsAt [op] r := by
  cases h with
  | value v => exact failsAt_ok v
  | misuse m => exact failsAt_misuse m
  | operand hworded _ => exact failsAt_fail hworded List.mem_cons_self

theorem failsAt_literalValue (v : Value) : FailsAt [] (literalValue v) := by
  unfold literalValue
  split
  · exact failsAt_misuse _
  · exact failsAt_ok _

theorem failsAt_readName (c : Chain) (t : Token) : FailsAt [t] (readName c t) := by
  unfold readName
  split
  · exact failsAt_ok _
  · exact failsAt_fail rfl List.mem_cons_self

theorem failsAt_writeName (c : Chain) (t : Token) (v : Value) :
    FailsAt [t] (writeName c t v).1 := by
  unfold writeName
  split
  · exact failsAt_ok _
  · exact failsAt_fail rfl List.mem_cons_self

/-! ## §3. Expressions and statements. -/

/-- What is done with a value fails at its own tokens, after those of the
expression. -/
theorem FailsAt.onValue {ts us : List Token} {r : Except Failure Value × Chain}
    (hr : FailsAt ts r.1) {use : Value → Chain → Except Failure Value × Chain}
    (huse : ∀ v c, FailsAt us (use v c).1) : FailsAt (ts ++ us) (onValue r use).1 := by
  obtain ⟨result, c⟩ := r
  cases result with
  | ok v => exact (huse v c).mono (List.subset_append_right ts us)
  | error f => exact hr.error.mono (List.subset_append_left ts us)

/-- **Expressions** fail at one of their failure points. -/
theorem Expr.failsAt_evaluate (e : Expr) (c : Chain) :
    FailsAt e.failurePoints (e.evaluate c).1 := by
  induction e generalizing c with
  | literal v => exact failsAt_literalValue v
  | name t => exact failsAt_readName c t
  | paren e ih => exact ih c
  | unary op e ih =>
    rw [Expr.evaluate_unary]
    refine (ih c).onValue ?_
    intro v c
    exact (applied_applyUnary op v).failsAt
  | binary l op r ihl ihr =>
    rw [Expr.failurePoints, List.append_assoc, Expr.evaluate_binary]
    refine (ihl c).onValue ?_
    intro v c
    refine (ihr c).onValue ?_
    intro w c
    exact (applied_applyBinary op v w).failsAt
  | assign t e ih =>
    rw [Expr.evaluate_assign]
    refine (ih c).onValue ?_
    intro v c
    exact failsAt_writeName c t v

theorem Stmt.failurePoints_eq (s : Stmt) : s.failurePoints = s.value.failurePoints := by
  cases s with
  | expression e => rfl
  | print e => rfl
  | declare t init =>
    cases init with
    | none => rfl
    | some e => rfl

/-- **Statements.**  A statement does its own deed after its expression, and
that never fails at a token. -/
theorem Stmt.failsAt_execute (s : Stmt) (c : Chain) :
    FailsAt s.failurePoints (s.execute c).result := by
  have hvalue := s.value.failsAt_evaluate c
  rw [s.failurePoints_eq]
  cases hevaluate : s.value.evaluate c with | mk result c' =>
  rw [hevaluate] at hvalue
  cases result with
  | error f =>
    rw [Stmt.execute_of_failure hevaluate]
    exact hvalue.error
  | ok v =>
    rw [Stmt.execute_of_value hevaluate]
    rcases s.deed_cases v c' with ⟨m, hdeed⟩ | ⟨es, hdeed⟩
    · rw [hdeed]
      exact failsAt_misuse m
    · rw [hdeed]
      exact failsAt_ok ()

/-- **Statements one after another** fail at a failure point of one of them. -/
theorem failsAt_execute (p : List Stmt) (c : Chain) :
    FailsAt (p.flatMap Stmt.failurePoints) (execute p c).result := by
  induction p generalizing c with
  | nil => exact failsAt_ok _
  | cons s p ih =>
    have hfirst := s.failsAt_execute c
    rw [List.flatMap_cons]
    unfold execute
    dsimp only
    split
    · exact hfirst.mono (List.subset_append_left _ _)
    · exact (ih _).mono (List.subset_append_right _ _)

/-! ## §4. Programs. -/

/-- A token of a list that is no literal. -/
def IsPointOf (ts : List Token) (t : Token) : Prop := t ∈ ts ∧ t.kind ∉ Kind.literals

theorem Kind.not_mem_literals_of_precedence {k : Kind} (h : 0 < k.precedence) :
    k ∉ Kind.literals := by
  intro hmem
  have hall : ∀ k ∈ Kind.literals, k.precedence = 0 := by decide
  rw [hall k hmem] at h
  exact absurd h (by decide)

theorem Kind.not_mem_literals_of_unary {k : Kind} (h : k ∈ Kind.unaryOperators) :
    k ∉ Kind.literals := by
  have hall : ∀ k ∈ Kind.unaryOperators, k ∉ Kind.literals := by decide
  exact hall k h

theorem IsPointOf.mono {ts us : List Token} {t : Token} (h : IsPointOf ts t) (hsub : ts ⊆ us) :
    IsPointOf us t :=
  ⟨hsub h.1, h.2⟩

/-- The failure points of an expression are tokens that it spells. -/
theorem Expr.Spells.isPointOf {e : Expr} {ts : List Token} (h : e.Spells ts) (hs : e.Shaped) :
    ∀ t ∈ e.failurePoints, IsPointOf ts t := by
  induction h with
  | literal hk => exact fun t ht => absurd ht List.not_mem_nil
  | name hk =>
    exact List.forall_mem_singleton.2 ⟨List.mem_cons_self, by rw [hk]; decide⟩
  | paren _ _ _ ih =>
    intro t ht
    exact (ih hs t ht).mono (by simp)
  | unary _ ih =>
    obtain ⟨hop, _, hs⟩ := hs
    rw [Expr.failurePoints, List.forall_mem_append, List.forall_mem_singleton]
    exact ⟨fun t ht => (ih hs t ht).mono (List.subset_cons_self _ _),
      List.mem_cons_self, Kind.not_mem_literals_of_unary hop⟩
  | binary _ _ ihl ihr =>
    obtain ⟨hop, _, _, hl, hr⟩ := hs
    rw [Expr.failurePoints, List.forall_mem_append, List.forall_mem_append,
      List.forall_mem_singleton]
    refine ⟨⟨?_, ?_⟩, by simp, Kind.not_mem_literals_of_precedence hop⟩
    · exact fun t ht => (ihl hl t ht).mono (List.subset_append_left _ _)
    · exact fun t ht => (ihr hr t ht).mono (by simp)
  | assign hk _ _ ih =>
    rw [Expr.failurePoints, List.forall_mem_append, List.forall_mem_singleton]
    exact ⟨fun t ht => (ih hs t ht).mono (by simp), by simp, by rw [hk]; decide⟩

theorem Stmt.Spells.isPointOf {s : Stmt} {ts : List Token} (h : s.Spells ts) (hs : s.Shaped) :
    ∀ t ∈ s.failurePoints, IsPointOf ts t := by
  cases h with
  | expression _ he => exact fun t ht => (he.isPointOf hs t ht).mono (by simp)
  | print _ _ he => exact fun t ht => (he.isPointOf hs t ht).mono (by simp)
  | declare _ _ _ => exact fun t ht => absurd ht List.not_mem_nil
  | declareWith _ _ _ _ he =>
    intro t ht
    refine (he.isPointOf hs t ht).mono ?_
    intro u hu
    simp [hu]

/-- **FAILURE POINTS** of a program are tokens of it, and none is a literal. -/
theorem IsProgram.isPointOf {p : List Stmt} {ts : List Token} (h : IsProgram p ts) :
    ∀ t ∈ p.flatMap Stmt.failurePoints, IsPointOf ts t := by
  obtain ⟨hspells, hshaped⟩ := h
  induction hspells with
  | nil => simp
  | cons hs _ ih =>
    obtain ⟨hfirst, hrest⟩ := List.forall_mem_cons.1 hshaped
    rw [List.flatMap_cons, List.forall_mem_append]
    exact ⟨fun t ht => (hs.isPointOf hfirst t ht).mono (List.subset_append_left _ _),
      fun t ht => (ih hrest t ht).mono (List.subset_append_right _ _)⟩

end LoxScript
