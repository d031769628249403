/-
  LoxScript.Proofs.Reader.Soundness
  ────────────────────────────────
  What is read as a program is one.

  Between two tokens the reader holds a part of a statement: the operands on
  its stack are finished trees, and each of them spells the tokens that made
  it.  So a state *reads* the tokens since the statement began
  (`State.Reads`), and this is what a token keeps:

      s reads us   ──t──▶   s' reads us ++ [t],
                            or us ++ [t] is a statement,
                            or there is an error

  The shape of the trees is kept by the stack: `admits r k` says that an
  expression of rank `r` may stand on the stack `k`, and no operator is
  pushed where its left operand does not reach down far enough.
-/
import LoxScript.Proofs.Reader.Steps

namespace LoxScript
namespace Reader

/-! ## §1. Stacks. -/

/-- The tokens that a stack was made from, the bottom first. -/
inductive StackReads : List Frame → List Token → Prop where
  | nil : StackReads [] []
  | group {k : List Frame} {us : List Token} {t : Token} :
      t.kind = .leftParen → StackReads k us → StackReads (.group :: k) (us ++ [t])
  | unary {k : List Frame} {us : List Token} {op : Token} :
      op.kind ∈ Kind.unaryOperators → admits 5 k → StackReads k us →
      StackReads (.unary op :: k) (us ++ [op])
  | binary {n : Nat} {k : List Frame} {us ts : List Token} {l : Expr} {op : Token} :
      op.kind.precedence = n + 1 → n + 1 ≤ l.rank → l.Shaped → l.Spells ts →
      admits (n + 1) k → StackReads k us → StackReads (.binary n l op :: k) (us ++ (ts ++ [op]))
  | assign {k : List Frame} {us ts : List Token} {e : Expr} {eq : Token} :
      eq.kind = .equal → e.Spells ts → admits 0 k → StackReads k us →
      StackReads (.assign e eq :: k) (us ++ (ts ++ [eq]))

/-- A unary operator with its operand may stand on every stack. -/
theorem StackReads.admits {k : List Frame} {us : List Token} (h : StackReads k us) :
    admits 5 k := by
  cases h with
  | @binary n _ _ _ _ op hop _ _ _ _ _ =>
    have := Kind.precedence_le op.kind
    show n + 1 < 5
    omega
  | unary => exact Nat.le_refl 5
  | nil | group | assign => trivial

/-- The tokens that a stack and the operand on it were made from. -/
structure OperandReads (k : List Frame) (e : Expr) (us : List Token) : Prop where
  split : ∃ ks ts, us = ks ++ ts ∧ StackReads k ks ∧ e.Spells ts
  shaped : e.Shaped
  admitted : admits e.rank k

/-! ## §2. Ending operators. -/

/-- A unary operator on the stack takes the operand. -/
theorem OperandReads.unary {op : Token} {k : List Frame} {e : Expr} {us : List Token}
    (h : OperandReads (.unary op :: k) e us) : OperandReads k (.unary op e) us := by
  obtain ⟨⟨_, ts, rfl, hk, he⟩, hshaped, hrank⟩ := h
  cases hk with
  | unary hop hadm hk =>
    refine ⟨⟨_, _, ?_, hk, he.unary⟩, ⟨hop, hrank, hshaped⟩, hadm⟩
    rw [List.append_assoc]
    rfl

/-- A binary operator on the stack takes the operand. -/
theorem OperandReads.binary {n : Nat} {l : Expr} {op : Token} {k : List Frame} {e : Expr}
    {us : List Token} (h : OperandReads (.binary n l op :: k) e us) :
    OperandReads k (.binary l op e) us ∧ (Expr.binary l op e).rank = n + 1 := by
  obtain ⟨⟨_, ts, rfl, hk, he⟩, hshaped, hrank⟩ := h
  cases hk with
  | binary hop hl hls hlt hadm hk =>
    refine ⟨⟨⟨_, _, ?_, hk, hlt.binary he⟩, ?_, ?_⟩, hop⟩
    · rw [List.append_assoc, List.append_assoc]
      rfl
    · show 0 < op.kind.precedence ∧ _
      rw [hop]
      exact ⟨Nat.succ_pos n, hl, hrank, hls, hshaped⟩
    · show admits op.kind.precedence k
      rw [hop]
      exact hadm

/-- An assignment on the stack takes its value. -/
theorem OperandReads.assign {t eq : Token} {k : List Frame} {e : Expr} {us : List Token}
    (h : OperandReads (.assign (.name t) eq :: k) e us) : OperandReads k (.assign t e) us := by
  obtain ⟨⟨_, ts, rfl, hk, he⟩, hshaped, _⟩ := h
  cases hk with
  | assign heq ht hadm hk =>
    cases ht with
    | name hname =>
      refine ⟨⟨_, _, ?_, hk, .assign hname heq he⟩, hshaped, hadm⟩
      rw [List.append_assoc]
      rfl

/-- Ending operators down to a level keeps the tokens, and leaves an operand
that an operator of this level may take on its left. -/
theorem settle_reads {level : Nat} (hlevel : level ≤ 4) {k : List Frame} {e : Expr}
    {us : List Token} (h : OperandReads k e us) (hrank : level < e.rank) :
    OperandReads (settle level e k).2 (settle level e k).1 us
      ∧ level < (settle level e k).1.rank ∧ admits (level + 1) (settle level e k).2 := by
  induction k generalizing e with
  | nil => exact ⟨h, hrank, trivial⟩
  | cons f k ih =>
    cases f with
    | unary op => exact ih h.unary (Nat.lt_succ_of_le hlevel)
    | binary n l op =>
      unfold settle
      by_cases hn : level ≤ n
      · rw [if_pos hn]
        obtain ⟨hbin, hr⟩ := h.binary
        exact ih hbin (by rw [hr]; exact Nat.lt_succ_of_le hn)
      · rw [if_neg hn]
        exact ⟨h, hrank, Nat.succ_lt_succ (Nat.lt_of_not_le hn)⟩
    | assign e' eq => exact ⟨h, hrank, trivial⟩
    | group => exact ⟨h, hrank, trivial⟩

/-- What is closed as a whole is spelled by all tokens. -/
theorem close_whole_reads {k : List Frame} {e e' : Expr} {us : List Token}
    (h : OperandReads k e us) (hc : close e k = .ok (.whole e')) :
    e'.Spells us ∧ e'.Shaped := by
  induction k generalizing e with
  | nil =>
    obtain ⟨⟨_, ts, rfl, hk, he⟩, hshaped, _⟩ := h
    cases hk
    cases hc
    exact ⟨he, hshaped⟩
  | cons f k ih =>
    cases f with
    | unary op => exact ih h.unary hc
    | binary n l op => exact ih h.binary.1 hc
    | group => cases hc
    | assign target eq =>
      -- here it is asked whether the target is a name
      cases target with
      | name t => exact ih h.assign hc
      | _ => cases hc

/-- What is closed inside a parenthesis is spelled by the tokens after it. -/
theorem close_inside_reads {k k' : List Frame} {e e' : Expr} {us : List Token}
    (h : OperandReads k e us) (hc : close e k = .ok (.inside e' k')) :
    ∃ ks t ts, us = ks ++ t :: ts ∧ t.kind = .leftParen ∧ StackReads k' ks
      ∧ e'.Spells ts ∧ e'.Shaped := by
  induction k generalizing e with
  | nil => cases hc
  | cons f k ih =>
    cases f with
    | unary op => exact ih h.unary hc
    | binary n l op => exact ih h.binary.1 hc
    | group =>
      obtain ⟨⟨_, ts, rfl, hk, he⟩, hshaped, _⟩ := h
      cases hc
      cases hk with
      | group ht hk =>
        refine ⟨_, _, ts, ?_, ht, hk, he, hshaped⟩
        rw [List.append_assoc]
        rfl
    | assign target eq =>
      cases target with
      | name t => exact ih h.assign hc
      | _ => cases hc

/-! ## §3. States. -/

/-- The tokens before the expression of a statement. -/
def Opening.Reads : Opening → List Token → Prop
  | .expression, us => us = []
  | .print, us => ∃ word, us = [word] ∧ word.kind = .wordPrint
  | .declare name, us =>
    ∃ word eq, us = [word, name, eq] ∧ word.kind = .wordVar ∧ name.kind = .identifier
      ∧ eq.kind = .equal

/-- An opening, an expression and a semicolon are a statement. -/
theorem Opening.Reads.statement {o : Opening} {us ts : List Token} {e : Expr} {semi : Token}
    (h : o.Reads us) (he : e.Spells ts) (hsemi : semi.kind = .semicolon) :
    (o.statement e).Spells (us ++ ts ++ [semi]) := by
  cases o with
  | expression =>
    obtain rfl := h
    exact .expression hsemi he
  | print =>
    obtain ⟨word, rfl, hword⟩ := h
    exact .print hword hsemi he
  | declare name =>
    obtain ⟨word, eq, rfl, hword, hname, heq⟩ := h
    exact .declareWith hword hname heq hsemi he

/-- The tokens since the statement began.  After an error nothing is known
of them. -/
def State.Reads : State → List Token → Prop
  | .fresh, us => us = []
  | .naming _, us => ∃ word, us = [word] ∧ word.kind = .wordVar
  | .named name, us =>
    ∃ word, us = [word, name] ∧ word.kind = .wordVar ∧ name.kind = .identifier
  | .operand o k _, us => ∃ a b, us = a ++ b ∧ o.Reads a ∧ StackReads k b
  | .operator o k e _, us => ∃ a b, us = a ++ b ∧ o.Reads a ∧ e.rank = 6 ∧ OperandReads k e b
  | .skipping, _ => False

/-- The tokens since the statement began, after a step: they lead to a state,
they are a statement, or there is an error. -/
inductive Step.Reads : Step → List Token → Prop where
  | goes {s : State} {us : List Token} : s.Reads us → Step.Reads ⟨[], s⟩ us
  | ends {s : Stmt} {us : List Token} :
      s.Spells us → s.Shaped → Step.Reads ⟨[.ok s], .fresh⟩ us
  | fails {err : SyntaxError} {as : List Attempt} {s : State} {us : List Token} :
      Step.Reads ⟨.error err :: as, s⟩ us

/-! ## §4. One token. -/

theorem readOperand_reads {o : Opening} {k : List Frame} {a b : List Token} (ha : o.Reads a)
    (hk : StackReads k b) (t : Token) : (readOperand o k t).Reads (a ++ b ++ [t]) := by
  have hadm : admits 6 k := admits_mono (Nat.le_succ 5) hk.admits
  rcases readOperand_cases o k t with ⟨ht, hr⟩ | ⟨ht, hr⟩ | ⟨ht, hr⟩ | ⟨ht, hr⟩ | hr <;> rw [hr]
  · exact .goes ⟨a, b ++ [t], List.append_assoc .., ha, rfl,
      ⟨b, [t], rfl, hk, .literal ht⟩, trivial, hadm⟩
  · exact .goes ⟨a, b ++ [t], List.append_assoc .., ha, rfl,
      ⟨b, [t], rfl, hk, .name ht⟩, trivial, hadm⟩
  · exact .goes ⟨a, b ++ [t], List.append_assoc .., ha, .group ht hk⟩
  · exact .goes ⟨a, b ++ [t], List.append_assoc .., ha, .unary ht hk.admits hk⟩
  · exact .fails

theorem readOperator_reads {o : Opening} {k : List Frame} {e : Expr} {a b : List Token}
    (ha : o.Reads a) (he : OperandReads k e b) (hrank : e.rank = 6) (last t : Token) :
    (readOperator o k e last t).Reads (a ++ b ++ [t]) := by
  rcases readOperator_cases o k e last t with
    ⟨n, ht⟩ | ht | ⟨ht, e', k', hc⟩ | ⟨ht, e', hc⟩ | ⟨err, _, hr⟩
  · -- the operator takes what is settled on its left
    have hn : n ≤ 4 := by
      have := Kind.precedence_le t.kind
      omega
    obtain ⟨⟨⟨ks, ts, rfl, hk, hl⟩, hshaped, _⟩, hlt, hadm⟩ :=
      settle_reads hn he (by rw [hrank]; omega)
    rw [readOperator_of_precedence o k e last ht]
    refine .goes ⟨a, ks ++ (ts ++ [t]), ?_, ha, .binary ht hlt hshaped hl hadm hk⟩
    simp only [List.append_assoc]
  · -- whether the target is a name is not asked yet
    obtain ⟨⟨⟨ks, ts, rfl, hk, hl⟩, _, _⟩, _, hadm⟩ :=
      settle_reads (Nat.zero_le 4) he (by rw [hrank]; omega)
    rw [readOperator_of_equal o k e last ht]
    refine .goes ⟨a, ks ++ (ts ++ [t]), ?_, ha, .assign ht hl (admits_zero hadm) hk⟩
    simp only [List.append_assoc]
  · obtain ⟨ks, l, ts, rfl, hl, hk, hspells, hshaped⟩ := close_inside_reads he hc
    rw [readOperator_of_rightParen o last ht hc]
    refine .goes ⟨a, ks ++ (l :: ts ++ [t]), ?_, ha, rfl,
      ⟨ks, _, rfl, hk, .paren hl ht hspells⟩, hshaped, ?_⟩
    · simp only [List.append_assoc, List.cons_append]
    · exact admits_mono (Nat.le_succ 5) hk.admits
  · obtain ⟨hspells, hshaped⟩ := close_whole_reads he hc
    rw [readOperator_of_semicolon o last ht hc]
    refine .ends (ha.statement hspells ht) ?_
    cases o <;> exact hshaped
  · rw [hr]
    exact .fails

theorem readSemicolon_reads {cause : SyntaxCause} {st : Stmt} {last t : Token}
    {us : List Token} (h : t.kind = .semicolon → st.Spells us) (hs : st.Shaped) :
    (readSemicolon cause st last t).Reads us := by
  unfold readSemicolon
  by_cases ht : t.kind = .semicolon
  · rw [if_pos ht]
    exact .ends (h ht) hs
  · rw [if_neg ht]
    exact .fails

/-- **One token.**  It extends what the state was made from. -/
theorem read_reads {s : State} {us : List Token} (h : s.Reads us) (t : Token) :
    (s.read t).Reads (us ++ [t]) := by
  cases s with
  | fresh =>
    obtain rfl := h
    show (readStart t).Reads [t]
    unfold readStart
    by_cases hvar : t.kind = .wordVar
    · rw [if_pos hvar]
      exact .goes ⟨t, rfl, hvar⟩
    · rw [if_neg hvar]
      by_cases hprint : t.kind = .wordPrint
      · rw [if_pos hprint]
        exact .goes ⟨[t], [], rfl, ⟨t, rfl, hprint⟩, .nil⟩
      · rw [if_neg hprint]
        exact readOperand_reads (o := .expression) (a := []) (b := []) rfl .nil t
  | naming last =>
    obtain ⟨word, rfl, hword⟩ := h
    show Step.Reads (if t.kind = .identifier then _ else _) _
    by_cases ht : t.kind = .identifier
    · rw [if_pos ht]
      exact .goes ⟨word, rfl, hword, ht⟩
    · rw [if_neg ht]
      exact .fails
  | named name =>
    obtain ⟨word, rfl, hword, hname⟩ := h
    show Step.Reads (if t.kind = .equal then _ else _) _
    by_cases ht : t.kind = .equal
    · rw [if_pos ht]
      exact .goes ⟨[word, name, t], [], rfl, ⟨word, t, rfl, hword, hname, ht⟩, .nil⟩
    · rw [if_neg ht]
      exact readSemicolon_reads (fun hsemi => .declare hword hname hsemi) trivial
  | operand o k last =>
    obtain ⟨a, b, rfl, ha, hk⟩ := h
    exact readOperand_reads ha hk t
  | operator o k e last =>
    obtain ⟨a, b, rfl, ha, hrank, he⟩ := h
    exact readOperator_reads ha he hrank last t
  | skipping => exact h.elim

/-! ## §5. All tokens. -/

/-- **All tokens.**  If every attempt from a state on is a statement, they are
the program of the tokens that made the state and of those that follow. -/
theorem isProgram_of_attempts {s : State} {us ts : List Token} {p : List Stmt}
    (h : s.Reads us) (ha : s.attempts ts = p.map .ok) : IsProgram p (us ++ ts) := by
  -- on the tokens that are left; the state, what it was made from and the
  -- statements still to come all change with a token
  induction ts generalizing s us p with
  | nil =>
    rcases finish_cases s with rfl | rfl | ⟨err, herr⟩
    · obtain rfl := h
      obtain rfl := List.map_eq_nil_iff.1 ha.symm
      exact .nil
    · exact h.elim
    · rw [State.attempts, herr] at ha
      obtain ⟨st, _, _, hst, _⟩ := List.map_eq_cons_iff.1 ha.symm
      cases hst
  | cons t ts ih =>
    have hr := read_reads h t
    have ha' : (s.read t).attempts ++ (s.read t).state.attempts ts = p.map .ok := ha
    rw [show us ++ t :: ts = us ++ [t] ++ ts by rw [List.append_assoc]; rfl]
    generalize s.read t = r at hr ha'
    cases hr with
    | goes h' => exact ih h' ha'
    | ends hspells hshaped =>
      -- the first of the statements is this one, and the rest starts afresh
      obtain ⟨st, q, rfl, hst, hq⟩ := List.map_eq_cons_iff.1 ha'.symm
      cases hst
      have hfresh : State.fresh.Reads [] := rfl
      exact .cons hspells hshaped (ih hfresh hq.symm)
    | fails =>
      obtain ⟨st, _, _, hst, _⟩ := List.map_eq_cons_iff.1 ha'.symm
      cases hst

theorem isProgram_beforeEnd {ts : List Token} {p : List Stmt} (h : programOf ts = .ok p) :
    IsProgram p (beforeEnd ts) := by
  have hfresh : State.fresh.Reads [] := rfl
  exact isProgram_of_attempts hfresh ((programOf_eq_ok_iff ts p).1 h)

/-- **SOUNDNESS.**  What is read as a program is a program: its trees spell,
token for token, the tokens before the first end token, and are shaped as the
grammar asks. -/
theorem isProgram_of_programOf {ts : List Token} {p : List Stmt} (h : programOf ts = .ok p) :
    ∃ read rest, ts = read ++ rest ∧ (∀ t ∈ read, t.kind ≠ .endOfText)
      ∧ (∀ t ∈ rest.head?, t.kind = .endOfText) ∧ IsProgram p read := by
  obtain ⟨rest, hsplit, hread, hrest⟩ := exists_eq_beforeEnd_append ts
  have hfresh : State.fresh.Reads [] := rfl
  have hattempts := (programOf_eq_ok_iff ts p).1 h
  exact ⟨beforeEnd ts, rest, hsplit, hread, hrest, isProgram_of_attempts hfresh hattempts⟩

theorem isProgram_of_programOf_sample :
    programOf (sampleTokens ++ [bare .endOfText, bare .plus]) = .ok sampleProgram
      ∧ ∃ read rest, sampleTokens ++ [bare .endOfText, bare .plus] = read ++ rest
        ∧ (∀ t ∈ read, t.kind ≠ .endOfText) ∧ (∀ t ∈ rest.head?, t.kind = .endOfText)
        ∧ IsProgram sampleProgram read :=
  ⟨rfl, isProgram_of_programOf rfl⟩

end Reader
end LoxScript
