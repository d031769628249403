/-
  LoxScript.Proofs.Reader.Completeness
  ────────────────────────────────
  Every program is read, and read in one way.

  When the tokens of an expression have been read, its last operators may
  still wait on the stack: after `a + b * c` the reader holds `c` alone, on
  the stack `b *`, `a +`.  That is no loss, because they end as soon as
  anything asks for them.  So what is left behind *settles as* the
  expression (`SettlesAs`), and by induction over trees

      operand o k last  ──tokens of e──▶  operator o k' e' last'

  where `e'` on `k'` settles as `e` on `k`, for every stack `k` that admits
  the rank of `e`.
-/
import LoxScript.Proofs.Reader.Steps

namespace LoxScript
namespace Reader

/-! ## §1. Operands that stand for an expression. -/

/-- An operand on a stack that is an expression on another stack, as soon as
a level that the expression allows or a closing token asks for it. -/
structure SettlesAs (k' : List Frame) (e' : Expr) (k : List Frame) (e : Expr) : Prop where
  settle_eq : ∀ level, level < e.rank → settle level e' k' = settle level e k
  close_eq : close e' k' = close e k

/-- Nothing ends on a stack that admits something looser than the level. -/
theorem settle_of_admits {r level : Nat} {k : List Frame} (e : Expr) (h : admits r k)
    (hr : r ≤ level + 1) (hr5 : r < 5) : settle level e k = (e, k) := by
  match k with
  | .unary _ :: _ =>
    have h5 : 5 ≤ r := h
    omega
  | .binary n _ _ :: _ =>
    have hn : n + 1 < r := h
    unfold settle
    rw [if_neg (by omega)]
  | .assign _ _ :: _ | .group :: _ | [] => rfl

theorem SettlesAs.refl (k : List Frame) (e : Expr) : SettlesAs k e k e :=
  ⟨fun _ _ => rfl, rfl⟩

/-- The operand of a unary operator settles as the whole. -/
theorem SettlesAs.unary {k' k : List Frame} {e' e : Expr} {op : Token} (he : 5 ≤ e.rank)
    (h : SettlesAs k' e' (.unary op :: k) e) : SettlesAs k' e' k (.unary op e) := by
  refine ⟨?_, h.close_eq⟩
  intro level hlevel
  exact h.settle_eq level (Nat.lt_of_lt_of_le hlevel he)

/-- The right operand of a binary operator settles as the whole. -/
theorem SettlesAs.binary {k' k : List Frame} {e' l e : Expr} {op : Token} {n : Nat}
    (hop : op.kind.precedence = n + 1) (he : n + 1 < e.rank)
    (h : SettlesAs k' e' (.binary n l op :: k) e) : SettlesAs k' e' k (.binary l op e) := by
  refine ⟨?_, h.close_eq⟩
  intro level hlevel
  have hle : level < n + 1 := hop ▸ hlevel
  rw [h.settle_eq level (Nat.lt_trans hle he)]
  show (if level ≤ n then _ else _) = _
  rw [if_pos (Nat.le_of_lt_succ hle)]

/-- The value of an assignment settles as the whole. -/
theorem SettlesAs.assign {k' k : List Frame} {e' e : Expr} {t eq : Token}
    (h : SettlesAs k' e' (.assign (.name t) eq :: k) e) : SettlesAs k' e' k (.assign t e) :=
  ⟨fun level hlevel => absurd hlevel (Nat.not_lt_zero level), h.close_eq⟩

/-! ## §2. Expressions. -/

/-- **Expressions.**  Reading the tokens that a shaped expression spells ends
no attempt, and what it leaves behind settles as the expression. -/
theorem readAll_expr {e : Expr} {ts : List Token} (h : e.Spells ts) (hs : e.Shaped)
    (o : Opening) {k : List Frame} (last : Token) (hadm : admits e.rank k) :
    ∃ k' e' last', (State.operand o k last).readAll ts = ⟨[], .operator o k' e' last'⟩
      ∧ SettlesAs k' e' k e := by
  -- on the spelling; a subtree is read on a larger stack, after another token
  induction h generalizing k last with
  | @literal t hk =>
    have ht : (State.operand o k last).read t = ⟨[], .operator o k (.literal t.literal) t⟩ :=
      readOperand_of_literal o k hk
    refine ⟨k, .literal t.literal, t, ?_, .refl _ _⟩
    rw [State.readAll_cons_of_read ht, State.readAll_nil]
  | @name t hk =>
    have ht : (State.operand o k last).read t = ⟨[], .operator o k (.name t) t⟩ :=
      readOperand_of_identifier o k hk
    refine ⟨k, .name t, t, ?_, .refl _ _⟩
    rw [State.readAll_cons_of_read ht, State.readAll_nil]
  | @paren l r e ts hl hr _ ih =>
    obtain ⟨k', e', last', hread, hsettles⟩ := ih hs l (k := .group :: k) trivial
    have hopen : (State.operand o k last).read l = ⟨[], .operand o (.group :: k) l⟩ :=
      readOperand_of_leftParen o k hl
    -- all that waits inside the parenthesis ends at its closing token
    have hend : close e' k' = .ok (.inside e k) := hsettles.close_eq
    have hclose : (State.operator o k' e' last').read r = ⟨[], .operator o k (.paren e) r⟩ :=
      readOperator_of_rightParen o last' hr hend
    refine ⟨k, .paren e, r, ?_, .refl _ _⟩
    rw [List.cons_append, State.readAll_cons_of_read hopen,
      State.readAll_append_of_readAll hread, State.readAll_cons_of_read hclose,
      State.readAll_nil]
  | @unary op e ts _ ih =>
    obtain ⟨hop, hrank, hshaped⟩ := hs
    obtain ⟨k', e', last', hread, hsettles⟩ := ih hshaped op (k := .unary op :: k) hrank
    have ht : (State.operand o k last).read op = ⟨[], .operand o (.unary op :: k) op⟩ :=
      readOperand_of_unary o k hop
    refine ⟨k', e', last', ?_, hsettles.unary hrank⟩
    rw [State.readAll_cons_of_read ht, hread]
  | @binary op l r ls rs _ _ ihl ihr =>
    obtain ⟨hpos, hlrank, hrrank, hl, hr⟩ := hs
    obtain ⟨n, hn⟩ : ∃ n, op.kind.precedence = n + 1 := Nat.exists_eq_add_one.2 hpos
    have hle := Kind.precedence_le op.kind
    have hadm' : admits (n + 1) k := hn ▸ hadm
    have hright : n + 1 < r.rank := hn ▸ hrrank
    obtain ⟨k₁, e₁, last₁, hread₁, hsettles₁⟩ := ihl hl last (admits_mono hlrank hadm)
    obtain ⟨k₂, e₂, last₂, hread₂, hsettles₂⟩ :=
      ihr hr op (k := .binary n l op :: k) hright
    refine ⟨k₂, e₂, last₂, ?_, hsettles₂.binary hn hright⟩
    -- the operator finds its left operand settled, and the stack below it as it was
    have hleft : settle n e₁ k₁ = (l, k) := by
      rw [hsettles₁.settle_eq n (by omega), settle_of_admits l hadm' (by omega) (by omega)]
    have hop : (State.operator o k₁ e₁ last₁).read op
        = ⟨[], .operand o (.binary n l op :: k) op⟩ := by
      show readOperator o k₁ e₁ last₁ op = _
      rw [readOperator_of_precedence o k₁ e₁ last₁ hn, hleft]
    rw [State.readAll_append_of_readAll hread₁, State.readAll_cons_of_read hop, hread₂]
  | @assign t eq e ts ht heq _ ih =>
    obtain ⟨k', e', last', hread, hsettles⟩ :=
      ih hs eq (k := .assign (.name t) eq :: k) trivial
    have hname : (State.operand o k last).read t = ⟨[], .operator o k (.name t) t⟩ :=
      readOperand_of_identifier o k ht
    have hadm' : admits 0 k := hadm
    have hequal : (State.operator o k (.name t) t).read eq
        = ⟨[], .operand o (.assign (.name t) eq :: k) eq⟩ := by
      show readOperator o k (.name t) t eq = _
      rw [readOperator_of_equal o k (.name t) t heq,
        settle_of_admits _ hadm' (Nat.zero_le 1) (by decide)]
    refine ⟨k', e', last', ?_, hsettles.assign⟩
    rw [State.readAll_cons_of_read hname, State.readAll_cons_of_read hequal, hread]

/-! ## §3. Statements. -/

/-- At the start of a statement an expression is read as it is where an
operand is due. -/
theorem readAll_fresh {e : Expr} {ts : List Token} (h : e.Spells ts) (hs : e.Shaped)
    (last : Token) :
    State.fresh.readAll ts = (State.operand .expression [] last).readAll ts := by
  obtain ⟨t, us, rfl, hvar, hprint⟩ := h.exists_cons hs
  have hread : State.fresh.read t = (State.operand .expression [] last).read t := by
    show readStart t = readOperand .expression [] t
    unfold readStart
    rw [if_neg hvar, if_neg hprint]
  rw [State.readAll_cons, State.readAll_cons, hread]

/-- The tokens of an expression and a semicolon after an opening are the
statement. -/
theorem readAll_closed {e : Expr} {ts : List Token} {semi : Token} (h : e.Spells ts)
    (hs : e.Shaped) (o : Opening) (last : Token) (hsemi : semi.kind = .semicolon) :
    (State.operand o [] last).readAll (ts ++ [semi]) = ⟨[.ok (o.statement e)], .fresh⟩ := by
  obtain ⟨k', e', last', hread, hsettles⟩ := readAll_expr h hs o last (k := []) trivial
  have hclose : close e' k' = .ok (.whole e) := hsettles.close_eq
  have hend : (State.operator o k' e' last').read semi = ⟨[.ok (o.statement e)], .fresh⟩ :=
    readOperator_of_semicolon o last' hsemi hclose
  rw [State.readAll_append_of_readAll hread, State.readAll_cons, hend]
  rfl

/-- **Statements.**  The tokens that a shaped statement spells are one
successful attempt. -/
theorem readAll_stmt {s : Stmt} {ts : List Token} (h : s.Spells ts) (hs : s.Shaped) :
    State.fresh.readAll ts = ⟨[.ok s], .fresh⟩ := by
  cases h with
  | @expression semi e ts hsemi he =>
    rw [State.readAll_append, readAll_fresh he hs semi, ← State.readAll_append]
    exact readAll_closed he hs .expression semi hsemi
  | @print word semi e ts hword hsemi he =>
    have hstart : State.fresh.read word = ⟨[], .operand .print [] word⟩ := by
      show readStart word = _
      unfold readStart
      rw [if_neg (by rw [hword]; decide), if_pos hword]
    rw [List.cons_append, State.readAll_cons_of_read hstart]
    exact readAll_closed he hs .print word hsemi
  | @declare word t semi hword ht hsemi =>
    have hstart : State.fresh.read word = ⟨[], .naming word⟩ := if_pos hword
    have hname : (State.naming word).read t = ⟨[], .named t⟩ := if_pos ht
    have hend : (State.named t).read semi = ⟨[.ok (.declare t none)], .fresh⟩ := by
      show (if semi.kind = .equal then _ else _) = _
      rw [if_neg (by rw [hsemi]; decide)]
      exact if_pos hsemi
    rw [State.readAll_cons_of_read hstart, State.readAll_cons_of_read hname,
      State.readAll_cons, hend]
    rfl
  | @declareWith word t eq semi e ts hword ht heq hsemi he =>
    have hstart : State.fresh.read word = ⟨[], .naming word⟩ := if_pos hword
    have hname : (State.naming word).read t = ⟨[], .named t⟩ := if_pos ht
    have hequal : (State.named t).read eq = ⟨[], .operand (.declare t) [] eq⟩ := if_pos heq
    rw [List.cons_append, List.cons_append, List.cons_append, State.readAll_cons_of_read hstart,
      State.readAll_cons_of_read hname, State.readAll_cons_of_read hequal]
    exact readAll_closed he hs (.declare t) eq hsemi

/-! ## §4. Programs. -/

/-- **Programs.**  The tokens of a program are attempts at its statements, and
behind them reading starts again. -/
theorem readAll_of_isProgram {p : List Stmt} {ts : List Token} (h : IsProgram p ts) :
    State.fresh.readAll ts = ⟨p.map .ok, .fresh⟩ := by
  obtain ⟨hspells, hshaped⟩ := h
  induction hspells with
  | nil => rfl
  | cons hs _ ih =>
    obtain ⟨hfirst, hrest⟩ := List.forall_mem_cons.1 hshaped
    rw [State.readAll_append, readAll_stmt hs hfirst, ih hrest]
    rfl

/-- Behind a program a reader starts afresh. -/
theorem attempts_append_of_isProgram {p : List Stmt} {ts : List Token} (h : IsProgram p ts)
    (us : List Token) :
    State.fresh.attempts (ts ++ us) = p.map .ok ++ State.fresh.attempts us := by
  rw [State.attempts_append, readAll_of_isProgram h]

/-- The attempts that a program's tokens make up are its statements. -/
theorem attempts_of_isProgram {p : List Stmt} {ts : List Token} (h : IsProgram p ts) :
    State.fresh.attempts ts = p.map .ok := by
  have halone := attempts_append_of_isProgram h []
  rw [List.append_nil] at halone
  exact halone.trans (List.append_nil _)

/-- **COMPLETENESS AND UNAMBIGUITY.**  The tokens of a program are read as
that program, whether the tokens end there or an end token follows, and they
are the tokens of no other program. -/
theorem programOf_eq_ok_of_isProgram {p : List Stmt} {ts rest : List Token}
    (h : IsProgram p ts) (hrest : ∀ t ∈ rest.head?, t.kind = .endOfText) :
    programOf (ts ++ rest) = .ok p ∧ ∀ q, IsProgram q ts → q = p := by
  constructor
  · rw [programOf_eq_ok_iff, attempts, beforeEnd_append h.kind_ne_endOfText hrest]
    exact attempts_of_isProgram h
  · intro q hq
    have hmap : q.map (Except.ok : Stmt → Attempt) = p.map .ok := by
      rw [← attempts_of_isProgram hq, attempts_of_isProgram h]
    exact (List.map_inj_right fun _ _ => Except.ok.inj).1 hmap

theorem programOf_eq_ok_of_isProgram_sample :
    IsProgram sampleProgram sampleTokens
      ∧ (∀ t ∈ [bare .endOfText, bare .plus].head?, t.kind = .endOfText)
      ∧ programOf (sampleTokens ++ [bare .endOfText, bare .plus]) = .ok sampleProgram
      ∧ ∀ q, IsProgram q sampleTokens → q = sampleProgram := by
  have hend : ∀ t ∈ [bare .endOfText, bare .plus].head?, t.kind = .endOfText := by simp [bare]
  exact ⟨isProgram_sample, hend, programOf_eq_ok_of_isProgram isProgram_sample hend⟩

end Reader
end LoxScript
