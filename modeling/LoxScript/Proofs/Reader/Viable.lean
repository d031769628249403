/-
  LoxScript.Proofs.Reader.Viable
  ────────────────────────────────
  What a program can begin with.

  Tokens are *extendable* if they begin a program.  The reader sees it from
  its state: all that waits for an operand to end can be ended, unless it is
  an assignment to something that is no name.  A state without such an
  assignment is *viable*.

      viable       — some tokens complete the statement
      not viable   — whatever tokens follow, the next attempt is an error

  So tokens are extendable exactly if they have been read without an error
  and the state they leave is viable.
-/
import LoxScript.Proofs.Reader.Soundness
import LoxScript.Proofs.Reader.Completeness

namespace LoxScript

/-- A program begins with these tokens. -/
def Extendable (ts : List Token) : Prop := ∃ us p, IsProgram p (ts ++ us)

namespace Reader

/-! ## §1. Stacks. -/

/-- Whether what waits for an operand can be ended. -/
def Frame.IsViable : Frame → Prop
  | .assign target _ => ∃ t, target = .name t
  | .unary _ | .binary _ _ _ | .group => True

/-- Whether what waits around an expression that is closed can be ended. -/
def Closed.IsViable : Except SyntaxError Closed → Prop
  | .error _ => False
  | .ok (.whole _) => True
  | .ok (.inside _ outer) => ∀ f ∈ outer, f.IsViable

/-- No assignment ends at an operator. -/
theorem settle_viable (level : Nat) (e : Expr) (k : List Frame) :
    (∀ f ∈ (settle level e k).2, f.IsViable) ↔ ∀ f ∈ k, f.IsViable := by
  -- only operators leave the stack, and an operator is always viable
  induction k generalizing e with
  | nil => rfl
  | cons f k ih =>
    cases f with
    | unary op =>
      rw [List.forall_mem_cons]
      exact (ih _).trans (iff_of_eq (true_and _).symm)
    | binary n l op =>
      unfold settle
      split
      · rw [List.forall_mem_cons]
        exact (ih _).trans (iff_of_eq (true_and _).symm)
      · rfl
    | assign target eq => rfl
    | group => rfl

/-- Closing fails at the first assignment that cannot be ended. -/
theorem close_viable (e : Expr) (k : List Frame) :
    Closed.IsViable (close e k) ↔ ∀ f ∈ k, f.IsViable := by
  induction k generalizing e with
  | nil => simp [close, Closed.IsViable]
  | cons f k ih =>
    rw [List.forall_mem_cons]
    cases f with
    | unary op => exact (ih _).trans (iff_of_eq (true_and _).symm)
    | binary n l op => exact (ih _).trans (iff_of_eq (true_and _).symm)
    | group => exact (iff_of_eq (true_and _).symm)
    | assign target eq =>
      cases target with
      | name t =>
        refine (ih _).trans ⟨fun h => ⟨⟨t, rfl⟩, h⟩, fun h => h.2⟩
      | literal _ | paren _ | unary _ _ | binary _ _ _ | assign _ _ =>
        refine ⟨False.elim, ?_⟩
        rintro ⟨⟨t, ht⟩, -⟩
        cases ht

/-- What is closed in a parenthesis leaves less to be ended. -/
theorem length_lt_of_close {k k' : List Frame} {e e' : Expr}
    (h : close e k = .ok (.inside e' k')) : k'.length < k.length := by
  induction k generalizing e with
  | nil => cases h
  | cons f k ih =>
    rw [List.length_cons]
    cases f with
    | unary op => exact Nat.lt_succ_of_lt (ih h)
    | binary n l op => exact Nat.lt_succ_of_lt (ih h)
    | group =>
      cases h
      exact Nat.lt_succ_self _
    | assign target eq =>
      cases target with
      | name t => exact Nat.lt_succ_of_lt (ih h)
      | literal _ | paren _ | unary _ _ | binary _ _ _ | assign _ _ => cases h

/-! ## §2. A viable state can be completed. -/

/-- Whether the statement that is being read can be completed. -/
def State.IsViable : State → Prop
  | .fresh | .naming _ | .named _ => True
  | .operand _ k _ | .operator _ k _ _ => ∀ f ∈ k, f.IsViable
  | .skipping => False

/-- Behind an operand, closing parentheses and a semicolon complete the
statement. -/
theorem exists_readAll_operator (o : Opening) {k : List Frame} (hk : ∀ f ∈ k, f.IsViable)
    (e : Expr) (last : Token) :
    ∃ us s, (State.operator o k e last).readAll us = ⟨[.ok s], .fresh⟩ := by
  -- on the height of the stack: a `)` for the innermost parenthesis, and at last a `;`
  have hclosed := (close_viable e k).2 hk
  cases hc : close e k with
  | error err =>
    rw [hc] at hclosed
    exact hclosed.elim
  | ok c =>
    rw [hc] at hclosed
    cases c with
    | whole e' =>
      have hend : (State.operator o k e last).read (bare .semicolon)
          = ⟨[.ok (o.statement e')], .fresh⟩ :=
        readOperator_of_semicolon (t := bare .semicolon) o last rfl hc
      refine ⟨[bare .semicolon], o.statement e', ?_⟩
      rw [State.readAll_cons, hend]
      rfl
    | inside e' k' =>
      have := length_lt_of_close hc
      have hclose : (State.operator o k e last).read (bare .rightParen)
          = ⟨[], .operator o k' (.paren e') (bare .rightParen)⟩ :=
        readOperator_of_rightParen (t := bare .rightParen) o last rfl hc
      obtain ⟨us, s, hus⟩ := exists_readAll_operator o hclosed (.paren e') (bare .rightParen)
      refine ⟨bare .rightParen :: us, s, ?_⟩
      rw [State.readAll_cons_of_read hclose, hus]
termination_by k.length

/-- **A viable state can be completed.** -/
theorem exists_readAll_of_viable {s : State} (h : s.IsViable) :
    ∃ (us : List Token) (p : List Stmt), s.readAll us = ⟨p.map .ok, .fresh⟩ := by
  cases s with
  | fresh => exact ⟨[], [], rfl⟩
  | naming last => exact ⟨[bare .identifier, bare .semicolon], [.declare _ none], rfl⟩
  | named name => exact ⟨[bare .semicolon], [.declare name none], rfl⟩
  | operand o k last =>
    have hnil : (State.operand o k last).read (bare .wordNil)
        = ⟨[], .operator o k (.literal .nil) (bare .wordNil)⟩ :=
      readOperand_of_literal o k (by decide)
    obtain ⟨us, s, hus⟩ := exists_readAll_operator o h (.literal .nil) (bare .wordNil)
    refine ⟨bare .wordNil :: us, [s], ?_⟩
    rw [State.readAll_cons_of_read hnil, hus]
    rfl
  | operator o k e last =>
    obtain ⟨us, s, hus⟩ := exists_readAll_operator o h e last
    exact ⟨us, [s], hus⟩
  | skipping => exact h.elim

/-! ## §3. A state that is not viable comes to an error. -/

/-- One token, in a state that is not viable: it is an error, or the next
state is not viable either. -/
theorem read_not_viable {s : State} (h : ¬ s.IsViable) (hs : s ≠ .skipping) (t : Token) :
    (∃ err as s', s.read t = ⟨.error err :: as, s'⟩)
      ∨ ∃ s', s.read t = ⟨[], s'⟩ ∧ ¬ s'.IsViable ∧ s' ≠ .skipping := by
  cases s with
  | fresh => exact absurd trivial h
  | naming last => exact absurd trivial h
  | named name => exact absurd trivial h
  | skipping => exact absurd rfl hs
  | operand o k last =>
    have hcons : ∀ f : Frame, ¬ ∀ g ∈ f :: k, g.IsViable :=
      fun f hf => h (List.forall_mem_cons.1 hf).2
    rcases readOperand_cases o k t with ⟨-, hr⟩ | ⟨-, hr⟩ | ⟨-, hr⟩ | ⟨-, hr⟩ | hr
    · exact .inr ⟨_, hr, h, nofun⟩
    · exact .inr ⟨_, hr, h, nofun⟩
    · exact .inr ⟨_, hr, hcons _, nofun⟩
    · exact .inr ⟨_, hr, hcons _, nofun⟩
    · exact .inl ⟨_, _, _, hr⟩
  | operator o k e last =>
    have hcons : ∀ level (f : Frame), ¬ ∀ g ∈ f :: (settle level e k).2, g.IsViable :=
      fun level f hf => h ((settle_viable level e k).1 (List.forall_mem_cons.1 hf).2)
    rcases readOperator_cases o k e last t with
      ⟨n, ht⟩ | ht | ⟨ht, e', k', hc⟩ | ⟨-, e', hc⟩ | ⟨err, -, hr⟩
    · exact .inr ⟨_, readOperator_of_precedence o k e last ht, hcons _ _, nofun⟩
    · exact .inr ⟨_, readOperator_of_equal o k e last ht, hcons _ _, nofun⟩
    · -- the assignment that cannot be ended stands outside this parenthesis
      refine .inr ⟨_, readOperator_of_rightParen o last ht hc, fun hk' => h ?_, nofun⟩
      exact (close_viable e k).1 (by rw [hc]; exact hk')
    · exact absurd ((close_viable e k).1 (by rw [hc]; exact trivial)) h
    · exact .inl ⟨_, _, _, hr⟩

/-- **A state that is not viable comes to an error**, whatever follows. -/
theorem head?_attempts_of_not_viable {s : State} (h : ¬ s.IsViable) (hs : s ≠ .skipping)
    (ts : List Token) : ∃ err, (s.attempts ts).head? = some (.error err) := by
  induction ts generalizing s with
  | nil =>
    rcases finish_cases s with rfl | rfl | ⟨err, herr⟩
    · exact absurd trivial h
    · exact absurd rfl hs
    · exact ⟨err, by rw [State.attempts, herr]; rfl⟩
  | cons t ts ih =>
    rw [State.attempts]
    rcases read_not_viable h hs t with ⟨err, as, s', hr⟩ | ⟨s', hr, h', hs'⟩
    · exact ⟨err, by rw [hr]; rfl⟩
    · rw [hr]
      exact ih h' hs'

/-! ## §4. Extendable tokens. -/

/-- As long as every attempt is a statement, the state knows the tokens since
the last one ended. -/
theorem exists_reads_readAll {s : State} {us ts : List Token} {p : List Stmt} (h : s.Reads us)
    (ha : (s.readAll ts).attempts = p.map .ok) : ∃ vs, (s.readAll ts).state.Reads vs := by
  induction ts generalizing s us p with
  | nil => exact ⟨us, h⟩
  | cons t ts ih =>
    have hr := read_reads h t
    rw [State.readAll_cons] at ha ⊢
    generalize s.read t = r at hr ha ⊢
    cases hr with
    | goes h' => exact ih h' ha
    | ends _ _ =>
      obtain ⟨st, q, rfl, -, hq⟩ := List.map_eq_cons_iff.1 ha.symm
      have hfresh : State.fresh.Reads [] := rfl
      exact ih hfresh hq.symm
    | fails =>
      obtain ⟨st, _, _, hst, _⟩ := List.map_eq_cons_iff.1 ha.symm
      cases hst

/-- A step of which every attempt is a statement, to a viable state. -/
def Step.IsGood (r : Step) : Prop :=
  (∃ p : List Stmt, r.attempts = p.map .ok) ∧ r.state.IsViable

/-- **EXTENDABLE TOKENS.**  A program begins with tokens exactly if every
attempt that ends among them is a statement and the state they leave is
viable. -/
theorem extendable_iff (ts : List Token) :
    Extendable ts ↔ (State.fresh.readAll ts).IsGood := by
  have hfresh : State.fresh.Reads [] := rfl
  constructor
  · rintro ⟨us, p, hp⟩
    have hall := attempts_of_isProgram hp
    rw [State.attempts_append] at hall
    obtain ⟨q, q', rfl, hq, hq'⟩ := List.append_eq_map_iff.1 hall
    refine ⟨⟨q, hq.symm⟩, ?_⟩
    by_contra hdead
    obtain ⟨vs, hvs⟩ := exists_reads_readAll hfresh hq.symm
    -- no attempt has failed so far, so nothing is skipped
    have hskip : (State.fresh.readAll ts).state ≠ .skipping := by
      intro hs
      rw [hs] at hvs
      exact hvs
    obtain ⟨err, herr⟩ := head?_attempts_of_not_viable hdead hskip us
    rw [← hq', List.head?_map] at herr
    obtain ⟨st, -, hst⟩ := Option.map_eq_some_iff.1 herr
    cases hst
  · rintro ⟨⟨p, hp⟩, hviable⟩
    obtain ⟨us, q, hus⟩ := exists_readAll_of_viable hviable
    have hread : State.fresh.readAll (ts ++ us) = ⟨(p ++ q).map .ok, .fresh⟩ := by
      rw [State.readAll_append, hus, hp, List.map_append]
    have hall : State.fresh.attempts (ts ++ us) = (p ++ q).map .ok := by
      rw [← List.append_nil (ts ++ us), State.attempts_append, hread]
      exact List.append_nil _
    have hprogram := isProgram_of_attempts hfresh hall
    exact ⟨us, p ++ q, hprogram⟩

/-- One more token that has a place. -/
theorem extendable_append_singleton {ts : List Token} {t : Token} (h : Extendable ts)
    (ht : ((State.fresh.readAll ts).state.read t).IsGood) : Extendable (ts ++ [t]) := by
  obtain ⟨⟨p, hp⟩, -⟩ := (extendable_iff ts).1 h
  obtain ⟨⟨q, hq⟩, hviable⟩ := ht
  rw [extendable_iff, State.readAll_append]
  refine ⟨⟨p ++ q, ?_⟩, hviable⟩
  rw [List.map_append, ← hp, ← hq]
  exact congrArg _ (List.append_nil _)

end Reader
end LoxScript
