/-
  LoxScript.Proofs.Reader.Steps
  ────────────────────────────────
  What the reader does, said once for every token and for many tokens.

  A stack *admits* a rank if an expression of this rank may stand on it: the
  operator on top of it must not bind tighter (`admits`).

  Reading is a machine, and a proof about it follows its steps.  Two lemmas
  say all that a step can do where something has to be decided:
  `readOperand_cases` where an operand is due, `readOperator_cases` after
  one.  A token that fits nowhere is an error, and after an operand it is
  the very error that the end of the tokens would have shown there.

  Many tokens are read by `State.readAll`, which keeps the state that
  `State.attempts` forgets:

      s.attempts (ts ++ us) = (s.readAll ts).attempts
                                ++ (s.readAll ts).state.attempts us
-/
import LoxScript.Proofs.Grammar
import LoxScript.Tree.Reader

namespace LoxScript

/-! ## §1. Kinds as the reader tests them. -/

theorem Kind.isUnary_iff (k : Kind) : k.isUnary = true ↔ k ∈ Kind.unaryOperators := by
  cases k <;> decide

/-- The reader counts levels from 0, the grammar counts them from 1. -/
theorem Kind.level?_eq_some_iff (k : Kind) (n : Nat) :
    k.level? = some n ↔ k.precedence = n + 1 := by
  cases k <;> simp [Kind.level?, Kind.precedence, eq_comm]

/-- Something is missing behind a token, which no token stands in for. -/
def SyntaxCause.isMissing : SyntaxCause → Bool
  | .unclosedParenthesis | .missingExpression | .unclosedPrint | .unclosedExpression
  | .unclosedDeclaration | .missingName => true
  | .strayToken _ | .custom _ => false

namespace Reader

theorem Opening.isMissing_unclosed (o : Opening) : o.unclosed.isMissing = true := by
  cases o <;> rfl

/-! ## §2. What a stack takes. -/

/-- Whether an expression of a rank may stand on a stack. -/
def admits (r : Nat) : List Frame → Prop
  | .unary _ :: _ => 5 ≤ r
  | .binary n _ _ :: _ => n + 1 < r
  | .assign _ _ :: _ | .group :: _ | [] => True

/-- What binds tighter may stand where something looser may. -/
theorem admits_mono {r r' : Nat} {k : List Frame} (hr : r ≤ r') (h : admits r k) :
    admits r' k := by
  match k with
  | .unary _ :: _ => exact Nat.le_trans h hr
  | .binary _ _ _ :: _ => exact Nat.lt_of_lt_of_le h hr
  | .assign _ _ :: _ | .group :: _ | [] => trivial

/-- Where the loosest operator may stand, an assignment may. -/
theorem admits_zero {k : List Frame} (h : admits 1 k) : admits 0 k := by
  match k with
  | .unary _ :: _ => exact absurd h (show ¬ 5 ≤ 1 by decide)
  | .binary n _ _ :: _ => exact absurd h (show ¬ n + 1 < 1 by omega)
  | .assign _ _ :: _ | .group :: _ | [] => trivial

/-! ## §3. One token. -/

theorem readOperand_of_literal {t : Token} (o : Opening) (k : List Frame)
    (ht : t.kind ∈ Kind.literals) :
    readOperand o k t = ⟨[], .operator o k (.literal t.literal) t⟩ := by
  unfold readOperand
  rw [if_pos ((Kind.isLiteral_iff _).2 ht)]

theorem readOperand_of_identifier {t : Token} (o : Opening) (k : List Frame)
    (ht : t.kind = .identifier) : readOperand o k t = ⟨[], .operator o k (.name t) t⟩ := by
  unfold readOperand
  simp [ht, Kind.isLiteral]

theorem readOperand_of_leftParen {t : Token} (o : Opening) (k : List Frame)
    (ht : t.kind = .leftParen) : readOperand o k t = ⟨[], .operand o (.group :: k) t⟩ := by
  unfold readOperand
  simp [ht, Kind.isLiteral]

theorem readOperand_of_unary {t : Token} (o : Opening) (k : List Frame)
    (ht : t.kind ∈ Kind.unaryOperators) :
    readOperand o k t = ⟨[], .operand o (.unary t :: k) t⟩ := by
  have hk : t.kind = .bang ∨ t.kind = .minus := by simpa [Kind.unaryOperators] using ht
  unfold readOperand
  rcases hk with hk | hk <;> simp [hk, Kind.isLiteral, Kind.isUnary]

/-- All that a token can do where an operand is due. -/
theorem readOperand_cases (o : Opening) (k : List Frame) (t : Token) :
    (t.kind ∈ Kind.literals ∧ readOperand o k t = ⟨[], .operator o k (.literal t.literal) t⟩)
    ∨ (t.kind = .identifier ∧ readOperand o k t = ⟨[], .operator o k (.name t) t⟩)
    ∨ (t.kind = .leftParen ∧ readOperand o k t = ⟨[], .operand o (.group :: k) t⟩)
    ∨ (t.kind ∈ Kind.unaryOperators ∧ readOperand o k t = ⟨[], .operand o (.unary t :: k) t⟩)
    ∨ readOperand o k t = ⟨[.error ⟨.strayToken t.lexeme, t.line⟩], .skipping⟩ := by
  by_cases hlit : t.kind ∈ Kind.literals
  · exact .inl ⟨hlit, readOperand_of_literal o k hlit⟩
  · by_cases hname : t.kind = .identifier
    · exact .inr (.inl ⟨hname, readOperand_of_identifier o k hname⟩)
    · by_cases hparen : t.kind = .leftParen
      · exact .inr (.inr (.inl ⟨hparen, readOperand_of_leftParen o k hparen⟩))
      · by_cases hop : t.kind ∈ Kind.unaryOperators
        · exact .inr (.inr (.inr (.inl ⟨hop, readOperand_of_unary o k hop⟩)))
        · refine .inr (.inr (.inr (.inr ?_)))
          unfold readOperand
          rw [if_neg (mt (Kind.isLiteral_iff _).1 hlit), if_neg hname, if_neg hparen,
            if_neg (mt (Kind.isUnary_iff _).1 hop)]

/-- An operator between two operands ends those that bind as tight. -/
theorem readOperator_of_precedence {n : Nat} {t : Token} (o : Opening) (k : List Frame)
    (e : Expr) (last : Token) (ht : t.kind.precedence = n + 1) :
    readOperator o k e last t
      = ⟨[], .operand o (.binary n (settle n e k).1 t :: (settle n e k).2) t⟩ := by
  unfold readOperator
  rw [(Kind.level?_eq_some_iff _ _).2 ht]

/-- `=` ends all operators between two operands. -/
theorem readOperator_of_equal {t : Token} (o : Opening) (k : List Frame) (e : Expr)
    (last : Token) (ht : t.kind = .equal) :
    readOperator o k e last t
      = ⟨[], .operand o (.assign (settle 0 e k).1 t :: (settle 0 e k).2) t⟩ := by
  unfold readOperator
  rw [show t.kind.level? = none by rw [ht]; rfl]
  simp only [ht, if_true]

/-- `)` ends the expression in a parenthesis. -/
theorem readOperator_of_rightParen {k k' : List Frame} {e e' : Expr} {t : Token} (o : Opening)
    (last : Token) (ht : t.kind = .rightParen) (hc : close e k = .ok (.inside e' k')) :
    readOperator o k e last t = ⟨[], .operator o k' (.paren e') t⟩ := by
  unfold readOperator
  rw [show t.kind.level? = none by rw [ht]; rfl]
  simp [ht, hc]

/-- `;` ends the statement. -/
theorem readOperator_of_semicolon {k : List Frame} {e e' : Expr} {t : Token} (o : Opening)
    (last : Token) (ht : t.kind = .semicolon) (hc : close e k = .ok (.whole e')) :
    readOperator o k e last t = ⟨[.ok (o.statement e')], .fresh⟩ := by
  unfold readOperator
  rw [show t.kind.level? = none by rw [ht]; rfl]
  simp [ht, hc, readSemicolon]

/-- All that a token can do after an operand.  Where it does not fit, the
error is the one that stands there if the tokens end. -/
theorem readOperator_cases (o : Opening) (k : List Frame) (e : Expr) (last t : Token) :
    (∃ n, t.kind.precedence = n + 1)
    ∨ t.kind = .equal
    ∨ (t.kind = .rightParen ∧ ∃ e' k', close e k = .ok (.inside e' k'))
    ∨ (t.kind = .semicolon ∧ ∃ e', close e k = .ok (.whole e'))
    ∨ ∃ err, (State.operator o k e last).finish = [.error err]
        ∧ readOperator o k e last t = failBefore err t := by
  cases hl : t.kind.level? with
  | some n => exact .inl ⟨n, (Kind.level?_eq_some_iff _ _).1 hl⟩
  | none =>
    by_cases he : t.kind = .equal
    · exact .inr (.inl he)
    · simp only [readOperator, hl, if_neg he, State.finish]
      cases hc : close e k with
      | error err => exact .inr (.inr (.inr (.inr ⟨err, rfl, rfl⟩)))
      | ok c =>
        cases c with
        | inside e' k' =>
          by_cases hp : t.kind = .rightParen
          · exact .inr (.inr (.inl ⟨hp, e', k', rfl⟩))
          · exact .inr (.inr (.inr (.inr ⟨_, rfl, by simp [hp]⟩)))
        | whole e' =>
          by_cases hs : t.kind = .semicolon
          · exact .inr (.inr (.inr (.inl ⟨hs, e', rfl⟩)))
          · exact .inr (.inr (.inr (.inr ⟨_, rfl, by simp [readSemicolon, hs]⟩)))

/-- The end of the tokens is an error inside a statement. -/
theorem finish_cases (s : State) :
    s = .fresh ∨ s = .skipping ∨ ∃ err, s.finish = [.error err] := by
  cases s with
  | fresh => exact .inl rfl
  | skipping => exact .inr (.inl rfl)
  | naming last => exact .inr (.inr ⟨_, rfl⟩)
  | named name => exact .inr (.inr ⟨_, rfl⟩)
  | operand o k last => exact .inr (.inr ⟨_, rfl⟩)
  | operator o k e last =>
    simp only [State.finish]
    cases close e k with
    | error err => exact .inr (.inr ⟨err, rfl⟩)
    | ok c => cases c <;> exact .inr (.inr ⟨_, rfl⟩)

/-! ## §4. Many tokens. -/

/-- The attempts that tokens end, and the state after the last one. -/
def State.readAll : State → List Token → Step
  | s, [] => ⟨[], s⟩
  | s, t :: ts =>
    let rest := (s.read t).state.readAll ts
    ⟨(s.read t).attempts ++ rest.attempts, rest.state⟩

@[simp] theorem State.readAll_nil (s : State) : s.readAll [] = ⟨[], s⟩ := rfl

theorem State.readAll_cons (s : State) (t : Token) (ts : List Token) :
    s.readAll (t :: ts)
      = ⟨(s.read t).attempts ++ ((s.read t).state.readAll ts).attempts,
          ((s.read t).state.readAll ts).state⟩ := rfl

/-- A token that ends no attempt only changes the state. -/
theorem State.readAll_cons_of_read {s s' : State} {t : Token} (h : s.read t = ⟨[], s'⟩)
    (ts : List Token) : s.readAll (t :: ts) = s'.readAll ts := by
  rw [State.readAll_cons, h]
  rfl

theorem State.readAll_append (s : State) (ts us : List Token) :
    s.readAll (ts ++ us)
      = ⟨(s.readAll ts).attempts ++ ((s.readAll ts).state.readAll us).attempts,
          ((s.readAll ts).state.readAll us).state⟩ := by
  induction ts generalizing s with
  | nil => rfl
  | cons t ts ih =>
    rw [List.cons_append, State.readAll_cons, ih, State.readAll_cons, List.append_assoc]

/-- Tokens that end no attempt only change the state. -/
theorem State.readAll_append_of_readAll {s s' : State} {ts : List Token}
    (h : s.readAll ts = ⟨[], s'⟩) (us : List Token) : s.readAll (ts ++ us) = s'.readAll us := by
  rw [State.readAll_append, h]
  rfl

/-- What follows some tokens is attempted from the state they leave. -/
theorem State.attempts_append (s : State) (ts us : List Token) :
    s.attempts (ts ++ us) = (s.readAll ts).attempts ++ (s.readAll ts).state.attempts us := by
  induction ts generalizing s with
  | nil => rfl
  | cons t ts ih =>
    show (s.read t).attempts ++ (s.read t).state.attempts (ts ++ us) = _
    rw [ih, State.readAll_cons, List.append_assoc]

/-! ## §5. Programs. -/

/-- Tokens without an end token are all read. -/
theorem beforeEnd_of_ne {ts : List Token} (hts : ∀ t ∈ ts, t.kind ≠ .endOfText) :
    beforeEnd ts = ts :=
  List.takeWhile_eq_self_iff.2 fun t ht => decide_eq_true (hts t ht)

/-- Tokens without an end token are read before what follows. -/
theorem beforeEnd_append_of_ne {ts : List Token} (hts : ∀ t ∈ ts, t.kind ≠ .endOfText)
    (us : List Token) : beforeEnd (ts ++ us) = ts ++ beforeEnd us :=
  List.takeWhile_append_of_pos fun t ht => decide_eq_true (hts t ht)

theorem beforeEnd_cons_of_eq {t : Token} (ht : t.kind = .endOfText) (ts : List Token) :
    beforeEnd (t :: ts) = [] :=
  List.takeWhile_cons_of_neg (by simp [ht])

/-- Tokens are read up to the first end token. -/
theorem beforeEnd_append {ts rest : List Token} (hts : ∀ t ∈ ts, t.kind ≠ .endOfText)
    (hrest : ∀ t ∈ rest.head?, t.kind = .endOfText) : beforeEnd (ts ++ rest) = ts := by
  rw [beforeEnd_append_of_ne hts]
  cases rest with
  | nil => exact List.append_nil ts
  | cons t us => rw [beforeEnd_cons_of_eq (hrest t rfl), List.append_nil]

/-- Every list of tokens is what is read and a rest that begins with an end
token, if there is one. -/
theorem exists_eq_beforeEnd_append (ts : List Token) :
    ∃ rest, ts = beforeEnd ts ++ rest ∧ (∀ t ∈ beforeEnd ts, t.kind ≠ .endOfText)
      ∧ ∀ t ∈ rest.head?, t.kind = .endOfText := by
  refine ⟨ts.dropWhile fun t => t.kind ≠ .endOfText, ?_, ?_, ?_⟩
  · exact List.takeWhile_append_dropWhile.symm
  · intro t ht
    have := List.all_takeWhile (p := fun t : Token => decide (t.kind ≠ .endOfText)) (l := ts)
    simpa using List.all_eq_true.1 this t ht
  · intro t ht
    have := List.head?_dropWhile_not (fun t : Token => decide (t.kind ≠ .endOfText)) ts
    rw [Option.mem_def.1 ht] at this
    simpa using this

/-- Attempts without an error are statements. -/
theorem eq_map_ok {as : List Attempt} (h : ∀ a ∈ as, ∃ s, a = .ok s) :
    as = (as.filterMap Except.toOption).map .ok := by
  induction as with
  | nil => rfl
  | cons a as ih =>
    obtain ⟨s, rfl⟩ := h _ List.mem_cons_self
    have htail := ih fun a ha => h a (List.mem_cons_of_mem _ ha)
    rw [List.filterMap_cons_some (rfl : Except.toOption (.ok s : Attempt) = some s),
      List.map_cons, ← htail]

/-- Tokens are read as a program exactly if every attempt is one of its
statements. -/
theorem programOf_eq_ok_iff (ts : List Token) (p : List Stmt) :
    programOf ts = .ok p ↔ attempts ts = p.map .ok := by
  constructor
  · intro h
    unfold programOf at h
    split at h
    · next herr =>
      unfold syntaxErrors at herr
      rw [List.filterMap_eq_nil_iff] at herr
      have hok : ∀ a ∈ attempts ts, ∃ s, a = .ok s := by
        intro a ha
        cases a with
        | ok s => exact ⟨s, rfl⟩
        | error e => exact absurd (herr _ ha) (by simp)
      rw [eq_map_ok hok, ← Except.ok.inj h]
      rfl
    · exact absurd h (by simp)
  · intro h
    have herr : syntaxErrors ts = [] := by
      unfold syntaxErrors
      rw [h, List.filterMap_map, List.filterMap_eq_nil_iff]
      intro s _
      rfl
    have hstmts : statements ts = p := by
      unfold statements
      rw [h, List.filterMap_map]
      exact List.filterMap_some
    unfold programOf
    rw [herr, hstmts]

end Reader
end LoxScript
