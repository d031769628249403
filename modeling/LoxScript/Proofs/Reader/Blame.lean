/-
  LoxScript.Proofs.Reader.Blame
  ────────────────────────────────
  What the first error blames.

  Take as many tokens as a program can begin with.  What follows them has no
  place there, and the first error says so: it is the token behind them, or
  something that is missing behind the last of them.

      print 1 2 ;       a semicolon is missing behind `1`
      print + 2 ;       `+` is stray
      1 + 2 = 3 ;       `=` is stray

  One token is not blamed at once.  Behind an operand that is no name an `=`
  is remembered, and it is blamed when its value has been read.  If no value
  can be read there, another error comes first and hides it: the first error
  that the same tokens show behind a name.

      1 = ;             `;` is stray, as it is in `x = ;`
-/
import LoxScript.Proofs.Reader.Viable
import LoxScript.Proofs.Reader.Recovery

namespace LoxScript

/-! ## §1. What is blamed. -/

/-- Tokens begin with an expression, and the token behind it, if there is
one, does not carry it on. -/
def BeginsWithValue (ts : List Token) : Prop :=
  ∃ e us vs, ts = us ++ vs ∧ Expr.Spells e us ∧ e.Shaped
    ∧ ∀ t ∈ vs.head?, t.kind.precedence = 0 ∧ t.kind ≠ .equal

/-- The kinds that an operand ends with. -/
def Reader.operandEnds : List Kind := .identifier :: .rightParen :: Kind.literals

/-- An `=` stands between two parts, behind the last token of an operand. -/
def EqualsBehindOperand (good rest : List Token) : Prop :=
  ∃ last ∈ good.getLast?, ∃ eq ∈ rest.head?, last.kind ∈ Reader.operandEnds ∧ eq.kind = .equal

/-- The first error, where `good` is all that a program can begin with. -/
inductive Blames : List Token → List Token → SyntaxError → Prop where
  /-- The token behind the good ones; an `=` behind an operand if a value
  follows it. -/
  | stray {good rest : List Token} {t : Token} :
      (EqualsBehindOperand good (t :: rest) → BeginsWithValue rest) →
      Blames good (t :: rest) ⟨.strayToken t.lexeme, t.line⟩
  /-- Something that is missing behind the last good token. -/
  | missing {good rest : List Token} {last : Token} {cause : SyntaxCause} :
      cause.isMissing → ¬ EqualsBehindOperand (good ++ [last]) rest →
      Blames (good ++ [last]) rest ⟨cause, last.line⟩
  /-- What is wrong with the value that an `=` asks for. -/
  | hidden {good rest : List Token} {eq : Token} {e : SyntaxError} :
      EqualsBehindOperand good (eq :: rest) → ¬ BeginsWithValue rest →
      (∀ x : Token, x.kind = .identifier → (syntaxErrors (x :: eq :: rest)).head? = some e) →
      Blames good (eq :: rest) e

theorem not_equalsBehindOperand_nil (rest : List Token) : ¬ EqualsBehindOperand [] rest := by
  rintro ⟨last, hlast, -⟩
  cases hlast

theorem equalsBehindOperand_iff {good rest : List Token} {last t : Token} :
    EqualsBehindOperand (good ++ [last]) (t :: rest)
      ↔ last.kind ∈ Reader.operandEnds ∧ t.kind = .equal := by
  simp [EqualsBehindOperand]

namespace Reader

/-! ## §2. The last token. -/

/-- What a state says about the token read last. -/
def State.EndsWith : State → Token → Prop
  | .fresh, t => t.kind = .semicolon
  | .naming last, t => last = t ∧ t.kind = .wordVar
  | .named name, t => name = t ∧ t.kind = .identifier
  | .operand _ _ last, t => last = t ∧ t.kind ∉ operandEnds
  | .operator _ _ _ last, t => last = t ∧ t.kind ∈ operandEnds
  | .skipping, _ => True

theorem readOperand_endsWith (o : Opening) (k : List Frame) (t : Token) :
    (readOperand o k t).state.EndsWith t := by
  rcases readOperand_cases o k t with ⟨ht, hr⟩ | ⟨ht, hr⟩ | ⟨ht, hr⟩ | ⟨ht, hr⟩ | hr <;> rw [hr]
  · exact ⟨rfl, List.mem_cons_of_mem _ (List.mem_cons_of_mem _ ht)⟩
  · exact ⟨rfl, by rw [ht]; decide⟩
  · exact ⟨rfl, by rw [ht]; decide⟩
  · have hops : ∀ kind ∈ Kind.unaryOperators, kind ∉ operandEnds := by decide
    exact ⟨rfl, hops _ ht⟩
  · trivial

theorem readStart_endsWith (t : Token) : (readStart t).state.EndsWith t := by
  unfold readStart
  split
  · next hvar => exact ⟨rfl, hvar⟩
  · split
    · next hprint => exact ⟨rfl, by rw [hprint]; decide⟩
    · exact readOperand_endsWith _ _ t

theorem failBefore_endsWith (err : SyntaxError) (t : Token) :
    (failBefore err t).state.EndsWith t := by
  show (skip t).state.EndsWith t
  unfold skip
  split
  · next hsemi => exact hsemi
  · split
    · exact readStart_endsWith t
    · trivial

/-- An operator between two operands, or `=`, asks for an operand. -/
theorem not_mem_operandEnds_of_precedence {n : Nat} {kind : Kind}
    (h : kind.precedence = n + 1) : kind ∉ operandEnds := by
  have hends : ∀ kind ∈ operandEnds, kind.precedence = 0 := by decide
  intro hmem
  rw [hends kind hmem] at h
  cases h

/-- **The last token**, whatever the state before it. -/
theorem read_endsWith (s : State) (t : Token) : (s.read t).state.EndsWith t := by
  cases s with
  | fresh => exact readStart_endsWith t
  | naming last =>
    show (if t.kind = .identifier then _ else failBefore _ t : Step).state.EndsWith t
    split
    · next hname => exact ⟨rfl, hname⟩
    · exact failBefore_endsWith _ t
  | named name =>
    show (if t.kind = .equal then _ else readSemicolon _ _ _ t : Step).state.EndsWith t
    split
    · next hequal => exact ⟨rfl, by rw [hequal]; decide⟩
    · unfold readSemicolon
      split
      · next hsemi => exact hsemi
      · exact failBefore_endsWith _ t
  | operand o k last => exact readOperand_endsWith o k t
  | operator o k e last =>
    show (readOperator o k e last t).state.EndsWith t
    rcases readOperator_cases o k e last t with
      ⟨n, ht⟩ | ht | ⟨ht, e', k', hc⟩ | ⟨ht, e', hc⟩ | ⟨err, -, hr⟩
    · rw [readOperator_of_precedence o k e last ht]
      exact ⟨rfl, not_mem_operandEnds_of_precedence ht⟩
    · rw [readOperator_of_equal o k e last ht]
      exact ⟨rfl, by rw [ht]; decide⟩
    · rw [readOperator_of_rightParen o last ht hc]
      exact ⟨rfl, by rw [ht]; decide⟩
    · rw [readOperator_of_semicolon o last ht hc]
      exact ht
    · rw [hr]
      exact failBefore_endsWith err t
  | skipping => exact failBefore_endsWith ⟨.missingName, 0⟩ t

/-- Where an operand is awaited, none has just ended. -/
theorem State.EndsWith.not_mem_operandEnds {s : State} {last : Token} (h : s.EndsWith last)
    (hs : s.awaitsOperand) : last.kind ∉ operandEnds := by
  cases s with
  | fresh =>
    have hsemi : last.kind = .semicolon := h
    rw [hsemi]
    decide
  | operand o k last' => exact h.2
  | naming _ | named _ | operator _ _ _ _ | skipping => cases hs

/-! ## §3. One token behind the good ones. -/

/-- What is wrong if the tokens end in a viable state is something missing. -/
theorem finish_of_viable {s : State} {last : Token} {err : SyntaxError} (h : s.IsViable)
    (hlast : s.EndsWith last) (hs : s.finish = [.error err]) :
    ∃ cause : SyntaxCause, cause.isMissing ∧ err = ⟨cause, last.line⟩ := by
  cases s with
  | fresh | skipping => cases hs
  | naming | named | operand =>
    obtain ⟨rfl, -⟩ := hlast
    cases hs
    exact ⟨_, rfl, rfl⟩
  | operator o k e last' =>
    obtain ⟨rfl, -⟩ := hlast
    have hclosed := (close_viable e k).2 h
    unfold State.finish at hs
    dsimp only at hs
    generalize close e k = c at hclosed hs
    cases c with
    | error _ => exact hclosed.elim
    | ok c =>
      cases c with
      | inside _ _ =>
        cases hs
        exact ⟨_, rfl, rfl⟩
      | whole _ =>
        cases hs
        exact ⟨_, o.isMissing_unclosed, rfl⟩

/-- All that a token can do in a viable state. -/
inductive State.Meets : State → Token → Prop where
  /-- It has a place there. -/
  | place {s : State} {t : Token} : (s.read t).IsGood → Meets s t
  /-- It is stray, where an operand is due. -/
  | stray {s : State} {t : Token} :
      s.awaitsOperand → s.read t = ⟨[.error ⟨.strayToken t.lexeme, t.line⟩], .skipping⟩ →
      Meets s t
  /-- Something is missing before it.  It is an `=` only behind `var`. -/
  | missing {s : State} {t : Token} {err : SyntaxError} :
      s.finish = [.error err] → s.read t = failBefore err t →
      (t.kind = .equal → ∃ last, s = .naming last) → Meets s t
  /-- It is an `=` whose target is no name. -/
  | target {o : Opening} {k : List Frame} {e : Expr} {last t : Token} :
      t.kind = .equal → (∀ x, (settle 0 e k).1 ≠ .name x) → Meets (.operator o k e last) t

theorem State.Meets.of_state {s s' : State} {t : Token} (hr : s.read t = ⟨[], s'⟩)
    (hs' : s'.IsViable) : s.Meets t := by
  apply place
  rw [hr]
  exact ⟨⟨[], rfl⟩, hs'⟩

theorem State.Meets.of_statement {s : State} {t : Token} {x : Stmt}
    (hr : s.read t = ⟨[.ok x], .fresh⟩) : s.Meets t := by
  apply place
  rw [hr]
  exact ⟨⟨[x], rfl⟩, trivial⟩

/-- A token where an operand is due: an operand, a part of one, or stray. -/
theorem meets_of_readOperand {s : State} {o : Opening} {k : List Frame} {t : Token}
    (hread : s.read t = readOperand o k t) (hs : s.awaitsOperand) (hk : ∀ f ∈ k, f.IsViable) :
    s.Meets t := by
  rcases readOperand_cases o k t with ⟨-, hr⟩ | ⟨-, hr⟩ | ⟨-, hr⟩ | ⟨-, hr⟩ | hr <;>
    rw [hr] at hread
  · exact .of_state hread hk
  · exact .of_state hread hk
  · exact .of_state hread (List.forall_mem_cons.2 ⟨trivial, hk⟩)
  · exact .of_state hread (List.forall_mem_cons.2 ⟨trivial, hk⟩)
  · exact .stray hs hread

theorem meets_fresh (t : Token) : State.fresh.Meets t := by
  by_cases hvar : t.kind = .wordVar
  · have hread : State.fresh.read t = ⟨[], .naming t⟩ := if_pos hvar
    exact .of_state hread trivial
  · have hread : State.fresh.read t = if t.kind = .wordPrint then _ else _ := if_neg hvar
    by_cases hprint : t.kind = .wordPrint
    · rw [if_pos hprint] at hread
      exact .of_state hread (List.forall_mem_nil _)
    · rw [if_neg hprint] at hread
      exact meets_of_readOperand hread rfl (List.forall_mem_nil _)

theorem meets_named (name t : Token) : (State.named name).Meets t := by
  by_cases hequal : t.kind = .equal
  · have hread : (State.named name).read t = ⟨[], .operand (.declare name) [] t⟩ :=
      if_pos hequal
    exact .of_state hread (List.forall_mem_nil _)
  · have hread : (State.named name).read t
        = readSemicolon .unclosedDeclaration (.declare name none) name t := if_neg hequal
    by_cases hsemi : t.kind = .semicolon
    · rw [readSemicolon, if_pos hsemi] at hread
      exact .of_statement hread
    · rw [readSemicolon, if_neg hsemi] at hread
      exact .missing rfl hread fun ht => absurd ht hequal

theorem meets_operator {o : Opening} {k : List Frame} {e : Expr} {last : Token}
    (h : ∀ f ∈ k, f.IsViable) (t : Token) : (State.operator o k e last).Meets t := by
  have hcons : ∀ level (f : Frame), f.IsViable → ∀ g ∈ f :: (settle level e k).2, g.IsViable :=
    fun level f hf => List.forall_mem_cons.2 ⟨hf, (settle_viable level e k).2 h⟩
  have hclosed := (close_viable e k).2 h
  -- an `=` is told apart first, for nothing is ever missing before it
  by_cases hequal : t.kind = .equal
  · by_cases hname : ∃ x, (settle 0 e k).1 = .name x
    · exact .of_state (readOperator_of_equal o k e last hequal) (hcons 0 _ hname)
    · exact .target hequal fun x hx => hname ⟨x, hx⟩
  · rcases readOperator_cases o k e last t with
      ⟨n, ht⟩ | ht | ⟨ht, e', k', hc⟩ | ⟨ht, e', hc⟩ | ⟨err, herr, hr⟩
    · exact .of_state (readOperator_of_precedence o k e last ht) (hcons n _ trivial)
    · exact absurd ht hequal
    · rw [hc] at hclosed
      exact .of_state (readOperator_of_rightParen o last ht hc) hclosed
    · exact .of_statement (readOperator_of_semicolon o last ht hc)
    · exact .missing herr hr fun ht => absurd ht hequal

theorem State.IsViable.meets {s : State} (h : s.IsViable) (t : Token) : s.Meets t := by
  cases s with
  | fresh => exact meets_fresh t
  | naming last =>
    by_cases ht : t.kind = .identifier
    · have hread : (State.naming last).read t = ⟨[], .named t⟩ := if_pos ht
      exact .of_state hread trivial
    · exact .missing rfl (if_neg ht) fun _ => ⟨last, rfl⟩
  | named name => exact meets_named name t
  | operand o k last => exact meets_of_readOperand rfl rfl h
  | operator o k e last => exact meets_operator h t
  | skipping => exact h.elim

/-! ## §4. The value of an `=`. -/

/-- An `=` whose target is no name is blamed when a value has been read. -/
theorem head?_attempts_of_value {target : Expr} (htarget : ∀ x, target ≠ .name x)
    (o : Opening) (k : List Frame) (eq : Token) {rest : List Token}
    (hvalue : BeginsWithValue rest) :
    ((State.operand o (.assign target eq :: k) eq).attempts rest).head?
      = some (.error ⟨.strayToken eq.lexeme, eq.line⟩) := by
  obtain ⟨e, us, vs, rfl, he, hshaped, hnext⟩ := hvalue
  obtain ⟨k', e', last', hread, hsettles⟩ :=
    readAll_expr he hshaped o eq (k := .assign target eq :: k) trivial
  -- behind the value everything is closed, down to the assignment that fails
  have hclose : close e' k' = .error ⟨.strayToken eq.lexeme, eq.line⟩ := by
    rw [hsettles.close_eq]
    cases target with
    | name x => exact absurd rfl (htarget x)
    | literal _ | paren _ | unary _ _ | binary _ _ _ | assign _ _ => rfl
  rw [State.attempts_append, hread]
  cases vs with
  | nil =>
    show ((State.operator o k' e' last').finish).head? = _
    rw [State.finish, hclose]
    rfl
  | cons t vs =>
    obtain ⟨hprec, hequal⟩ := hnext t rfl
    have hlevel : t.kind.level? = none := by
      cases hl : t.kind.level? with
      | none => rfl
      | some n =>
        rw [Kind.level?_eq_some_iff, hprec] at hl
        cases hl
    show ((readOperator o k' e' last' t).attempts ++ _).head? = _
    simp only [readOperator, hlevel, if_neg hequal, hclose]
    rfl

/-- The state of a statement that is one expression, and the same state with
more below its stack. -/
inductive State.Onto (o : Opening) (below : List Frame) : State → State → Prop where
  | operand {k : List Frame} {last : Token} :
      Onto o below (.operand .expression k last) (.operand o (k ++ below) last)
  | operator {k : List Frame} {e : Expr} {last : Token} :
      Onto o below (.operator .expression k e last) (.operator o (k ++ below) e last)

/-- Two steps to such states, or to the same error. -/
inductive Step.Onto (o : Opening) (below : List Frame) : Step → Step → Prop where
  | goes {s s' : State} : s.Onto o below s' → Onto o below ⟨[], s⟩ ⟨[], s'⟩
  | fails {err : SyntaxError} {as as' : List Attempt} {s s' : State} :
      Onto o below ⟨.error err :: as, s⟩ ⟨.error err :: as', s'⟩

/-- Operators end above an assignment. -/
theorem settle_append (level : Nat) (e : Expr) (k : List Frame) (target : Expr) (eq : Token)
    (below : List Frame) :
    settle level e (k ++ .assign target eq :: below)
      = ((settle level e k).1, (settle level e k).2 ++ .assign target eq :: below) := by
  induction k generalizing e with
  | nil => rfl
  | cons f k ih =>
    cases f with
    | unary op => exact ih _
    | binary n l op =>
      rw [List.cons_append]
      unfold settle
      split
      · exact ih _
      · rfl
    | assign _ _ => rfl
    | group => rfl

/-- What is wrong on top of a stack, or is closed there, does not depend on
what is below. -/
theorem close_append (e : Expr) (k below : List Frame) :
    (∀ err, close e k = .error err → close e (k ++ below) = .error err)
      ∧ ∀ e' k', close e k = .ok (.inside e' k')
        → close e (k ++ below) = .ok (.inside e' (k' ++ below)) := by
  induction k generalizing e with
  | nil => exact ⟨nofun, nofun⟩
  | cons f k ih =>
    cases f with
    | unary op => exact ih _
    | binary n l op => exact ih _
    | group =>
      refine ⟨nofun, ?_⟩
      rintro e' k' ⟨⟩
      rfl
    | assign target eq =>
      cases target with
      | name x => exact ih _
      | literal _ | paren _ | unary _ _ | binary _ _ _ | assign _ _ =>
        exact ⟨fun _ h => h, nofun⟩

variable {o : Opening} {target : Expr} {eq : Token} {below : List Frame}

theorem readOperand_onto (k below : List Frame) (t : Token) :
    Step.Onto o below (readOperand .expression k t) (readOperand o (k ++ below) t) := by
  unfold readOperand
  split
  · exact .goes .operator
  · split
    · exact .goes .operator
    · split
      · exact .goes (.operand (k := .group :: k))
      · split
        · exact .goes (.operand (k := .unary t :: k))
        · exact .fails

/-- A token behind an operand, as long as it does not end the value. -/
theorem readOperator_onto {k : List Frame} {e : Expr} {t : Token} (last : Token)
    (hopen : ∀ e', close e k = .ok (.whole e') → t.kind.precedence = 0 → t.kind = .equal) :
    Step.Onto o (.assign target eq :: below) (readOperator .expression k e last t)
      (readOperator o (k ++ .assign target eq :: below) e last t) := by
  unfold readOperator
  cases hl : t.kind.level? with
  | some level =>
    have hsettle := settle_append level e k target eq below
    dsimp only
    rw [hsettle]
    exact .goes (.operand (k := .binary level (settle level e k).1 t :: (settle level e k).2))
  | none =>
    by_cases hequal : t.kind = .equal
    · rw [if_pos hequal, if_pos hequal, settle_append]
      exact .goes (.operand (k := .assign (settle 0 e k).1 t :: (settle 0 e k).2))
    · rw [if_neg hequal, if_neg hequal]
      obtain ⟨herror, hinside⟩ := close_append e k (.assign target eq :: below)
      cases hc : close e k with
      | error err =>
        rw [herror err hc]
        exact .fails
      | ok c =>
        cases c with
        | inside e' k' =>
          rw [hinside e' k' hc]
          dsimp only
          split
          · exact .goes .operator
          · exact .fails
        | whole e' =>
          -- the value ends here, which was excluded
          have hprec : t.kind.precedence = 0 := by
            cases hp : t.kind.precedence with
            | zero => rfl
            | succ n =>
              rw [(Kind.level?_eq_some_iff _ _).2 hp] at hl
              cases hl
          exact absurd (hopen e' hc hprec) hequal

/-- What is closed as a whole is a value. -/
theorem beginsWithValue_of_close {k : List Frame} {e e' : Expr} {last : Token}
    {ws rest : List Token} (hws : (State.operator .expression k e last).Reads ws)
    (hc : close e k = .ok (.whole e'))
    (hrest : ∀ t ∈ rest.head?, t.kind.precedence = 0 ∧ t.kind ≠ .equal) :
    BeginsWithValue (ws ++ rest) := by
  obtain ⟨a, b, rfl, ha, -, he⟩ := hws
  obtain rfl : a = [] := ha
  obtain ⟨hspells, hshaped⟩ := close_whole_reads he hc
  exact ⟨e', b, rest, rfl, hspells, hshaped, hrest⟩

/-- **Where no value can be read** the first error does not depend on what
waits for the value. -/
theorem head?_attempts_onto {s s' : State} {ws rest : List Token}
    (h : s.Onto o (.assign target eq :: below) s') (hws : s.Reads ws)
    (hvalue : ¬ BeginsWithValue (ws ++ rest)) :
    (s'.attempts rest).head? = (s.attempts rest).head? := by
  -- on the tokens to come; `ws` are those of the value that are read already
  induction rest generalizing s s' ws with
  | nil =>
    cases h with
    | operand => rfl
    | @operator k e last =>
      obtain ⟨herror, hinside⟩ := close_append e k (.assign target eq :: below)
      show (State.finish _).head? = (State.finish _).head?
      unfold State.finish
      cases hc : close e k with
      | error err =>
        dsimp only
        rw [hc, herror err hc]
      | ok c =>
        cases c with
        | inside e' k' =>
          dsimp only
          rw [hc, hinside e' k' hc]
        | whole e' => exact absurd (beginsWithValue_of_close hws hc (by simp)) hvalue
  | cons t rest ih =>
    have hread := read_reads hws t
    have honto : Step.Onto o (.assign target eq :: below) (s.read t) (s'.read t) := by
      cases h with
      | operand => exact readOperand_onto _ _ t
      | operator =>
        refine readOperator_onto _ ?_
        intro e' hc hprec
        by_contra hequal
        refine hvalue (beginsWithValue_of_close hws hc ?_)
        rintro u ⟨⟩
        exact ⟨hprec, hequal⟩
    rw [State.attempts, State.attempts]
    generalize s.read t = r, s'.read t = r' at hread honto
    cases honto with
    | goes h' =>
      cases hread with
      | goes hws' => exact ih h' hws' (by rwa [List.append_assoc])
    | fails => rfl

/-! ## §5. The first error. -/

/-- Behind statements the first error is that of the first attempt. -/
theorem head?_syntaxErrors {ts : List Token} {p : List Stmt} {as : List Attempt}
    {err : SyntaxError} (hts : attempts ts = p.map .ok ++ as)
    (has : as.head? = some (.error err)) : (syntaxErrors ts).head? = some err := by
  obtain ⟨as', rfl⟩ := List.head?_eq_some_iff.1 has
  unfold syntaxErrors
  rw [hts]
  clear hts
  induction p with
  | nil => rfl
  | cons s p ih => exact ih

/-- The state behind tokens knows the last of them. -/
theorem readAll_endsWith (ts : List Token) (t : Token) :
    (State.fresh.readAll (ts ++ [t])).state.EndsWith t := by
  rw [State.readAll_append]
  exact read_endsWith _ t

/-- Behind a name and `=` the value of an assignment is due. -/
theorem attempts_assignment {x eq : Token} (hx : x.kind = .identifier) (heq : eq.kind = .equal)
    (rest : List Token) :
    State.fresh.attempts (x :: eq :: rest)
      = (State.operand .expression [.assign (.name x) eq] eq).attempts rest := by
  have hname : State.fresh.read x = ⟨[], .operator .expression [] (.name x) x⟩ := by
    show readStart x = _
    rw [readStart, if_neg (by rw [hx]; decide), if_neg (by rw [hx]; decide)]
    exact readOperand_of_identifier .expression [] hx
  have hequal : (State.operator .expression [] (.name x) x).read eq
      = ⟨[], .operand .expression [.assign (.name x) eq] eq⟩ :=
    readOperator_of_equal .expression [] (.name x) x heq
  rw [State.attempts, hname, State.attempts, hequal]
  rfl

/-- An `=` whose target is no name is blamed, or the value behind it is. -/
theorem exists_blames_equal {good rest : List Token} {o : Opening} {target : Expr}
    {k : List Frame} {eq : Token} (htarget : ∀ x, target ≠ .name x)
    (hrest : ∀ t ∈ eq :: rest, t.kind ≠ .endOfText) (heq : eq.kind = .equal)
    (hbehind : EqualsBehindOperand good (eq :: rest)) :
    ∃ err, ((State.operand o (.assign target eq :: k) eq).attempts rest).head?
        = some (.error err) ∧ Blames good (eq :: rest) err := by
  by_cases hvalue : BeginsWithValue rest
  · exact ⟨_, head?_attempts_of_value htarget o k eq hvalue, .stray fun _ => hvalue⟩
  · have hdead : ¬ (State.operand o (.assign target eq :: k) eq).IsViable := by
      intro h
      obtain ⟨x, hx⟩ := (List.forall_mem_cons.1 h).1
      exact htarget x hx
    obtain ⟨err, herr⟩ := head?_attempts_of_not_viable hdead nofun rest
    refine ⟨err, herr, .hidden hbehind hvalue ?_⟩
    intro x hx
    -- both are the state that reads the value alone, on more stack
    have halone : (State.operand .expression [] eq).Reads [] := ⟨[], [], rfl, rfl, .nil⟩
    have hhere : State.Onto o (.assign target eq :: k) (.operand .expression [] eq)
        (.operand o (.assign target eq :: k) eq) := .operand (k := [])
    have hname : State.Onto .expression [.assign (.name x) eq] (.operand .expression [] eq)
        (.operand .expression [.assign (.name x) eq] eq) := .operand (k := [])
    rw [head?_attempts_onto hhere halone hvalue] at herr
    have hx' : ∀ t ∈ x :: eq :: rest, t.kind ≠ .endOfText :=
      List.forall_mem_cons.2 ⟨by rw [hx]; decide, hrest⟩
    have hread : attempts (x :: eq :: rest)
        = ([] : List Stmt).map .ok
          ++ (State.operand .expression [.assign (.name x) eq] eq).attempts rest := by
      rw [attempts, beforeEnd_of_ne hx', attempts_assignment hx heq]
      rfl
    refine head?_syntaxErrors hread ?_
    rw [head?_attempts_onto hname halone hvalue, herr]

/-- Tokens that leave no place for what follows, in the state they leave. -/
theorem exists_blames {good rest : List Token} {s : State}
    (hs : (State.fresh.readAll good).state = s) (hrest : ∀ t ∈ rest, t.kind ≠ .endOfText)
    (hviable : s.IsViable) (hend : rest = [] → s.finish ≠ [])
    (hmax : ∀ t ∈ rest.head?, ¬ (s.read t).IsGood) :
    ∃ err, (s.attempts rest).head? = some (.error err) ∧ Blames good rest err := by
  have hlast : s = .fresh ∧ good = [] ∨ ∃ g last, good = g ++ [last] ∧ s.EndsWith last := by
    rcases List.eq_nil_or_concat good with rfl | ⟨g, last, rfl⟩
    · exact .inl ⟨hs.symm, rfl⟩
    · rw [List.concat_eq_append] at hs ⊢
      exact .inr ⟨g, last, rfl, hs ▸ readAll_endsWith g last⟩
  -- nothing is missing before an `=` behind an operand, only behind `var`
  have hmissing : ∀ err, s.finish = [.error err] →
      (∀ t ∈ rest.head?, t.kind = .equal → ∃ last, s = .naming last) → Blames good rest err := by
    intro err herr hequal
    rcases hlast with ⟨rfl, -⟩ | ⟨g, last, rfl, hlast⟩
    · cases herr
    · obtain ⟨cause, hcause, rfl⟩ := finish_of_viable hviable hlast herr
      refine .missing hcause ?_
      rintro ⟨_, hlast', t, ht, hmem, heq⟩
      obtain rfl : last = _ := by simpa using hlast'
      obtain ⟨last', rfl⟩ := hequal t ht heq
      obtain ⟨-, hvar⟩ := hlast
      rw [hvar] at hmem
      exact absurd hmem (by decide)
  cases rest with
  | nil =>
    rcases finish_cases s with rfl | rfl | ⟨err, herr⟩
    · exact absurd rfl (hend rfl)
    · exact hviable.elim
    · exact ⟨err, by rw [State.attempts, herr]; rfl, hmissing err herr nofun⟩
  | cons t rest =>
    rw [State.attempts]
    cases hviable.meets t with
    | place hgood => exact absurd hgood (hmax t rfl)
    | stray hawaits hr =>
      refine ⟨_, by rw [hr]; rfl, .stray ?_⟩
      intro hbehind
      rcases hlast with ⟨-, rfl⟩ | ⟨g, last, rfl, hlast⟩
      · exact absurd hbehind (not_equalsBehindOperand_nil _)
      · exact absurd (equalsBehindOperand_iff.1 hbehind).1 (hlast.not_mem_operandEnds hawaits)
    | @missing _ _ err herr hr hequal =>
      refine ⟨err, by rw [hr]; rfl, hmissing err herr ?_⟩
      rintro u ⟨⟩
      exact hequal
    | @target o k e last' _ hequal htarget =>
      rcases hlast with ⟨⟨⟩, -⟩ | ⟨g, last, rfl, hlast⟩
      have hr : (State.operator o k e last').read t
          = ⟨[], .operand o (.assign (settle 0 e k).1 t :: (settle 0 e k).2) t⟩ :=
        readOperator_of_equal o k e last' hequal
      rw [hr]
      exact exists_blames_equal htarget hrest hequal
        (equalsBehindOperand_iff.2 ⟨hlast.2, hequal⟩)

/-- **THE FIRST ERROR.**  Of tokens that are no program, let `k` be the number
of those that a program can begin with.  The first error blames the token
behind them, or says what is missing behind the last of them.  Only behind an
`=` that follows an operand, and that no value follows, it is the first error
of the value. -/
theorem blames_of_programOf_eq_error {ts : List Token} {es : List SyntaxError}
    (hts : ∀ t ∈ ts, t.kind ≠ .endOfText) (h : programOf ts = .error es) :
    ∃ k e, IsGreatest {n | n ≤ ts.length ∧ Extendable (ts.take n)} k ∧ es.head? = some e
      ∧ Blames (ts.take k) (ts.drop k) e := by
  have hnonempty : {n | n ≤ ts.length ∧ Extendable (ts.take n)}.Nonempty :=
    ⟨0, Nat.zero_le _, [], [], .nil⟩
  have hbounded : BddAbove {n | n ≤ ts.length ∧ Extendable (ts.take n)} :=
    ⟨ts.length, fun n hn => hn.1⟩
  obtain ⟨k, hk⟩ := hbounded.exists_isGreatest_of_nonempty hnonempty
  obtain ⟨⟨p, hp⟩, hviable⟩ := (extendable_iff _).1 hk.1.2
  have hattempts : attempts ts
      = p.map .ok ++ (State.fresh.readAll (ts.take k)).state.attempts (ts.drop k) := by
    rw [← hp, ← State.attempts_append, List.take_append_drop, attempts, beforeEnd_of_ne hts]
  have hes : es = syntaxErrors ts := by
    unfold programOf at h
    split at h
    · cases h
    · exact (Except.error.inj h).symm
  have hrest : ∀ t ∈ ts.drop k, t.kind ≠ .endOfText :=
    fun t ht => hts t (List.mem_of_mem_drop ht)
  have hend : ts.drop k = [] → (State.fresh.readAll (ts.take k)).state.finish ≠ [] := by
    intro hdrop hfinish
    rw [hdrop, State.attempts, hfinish, List.append_nil] at hattempts
    rw [(programOf_eq_ok_iff ts p).2 hattempts] at h
    cases h
  -- if one more token had its place, `k` would not be the greatest
  have hmax : ∀ t ∈ (ts.drop k).head?,
      ¬ ((State.fresh.readAll (ts.take k)).state.read t).IsGood := by
    intro t ht hgood
    rw [List.head?_drop] at ht
    obtain ⟨hlt, -⟩ := List.getElem?_eq_some_iff.1 ht
    have hmore := extendable_append_singleton hk.1.2 hgood
    have htake : ts.take (k + 1) = ts.take k ++ [t] := by
      rw [List.take_add_one, Option.mem_def.1 ht]
      rfl
    rw [← htake] at hmore
    exact absurd (hk.2 ⟨hlt, hmore⟩) (Nat.not_succ_le_self k)
  obtain ⟨err, herr, hblames⟩ := exists_blames rfl hrest hviable hend hmax
  refine ⟨k, err, hk, ?_, hblames⟩
  rw [hes]
  exact head?_syntaxErrors hattempts herr

/-- The `=` of `1 + 2 = 3;` is the first that has no place. -/
theorem blames_of_programOf_eq_error_sample :
    (∀ t ∈ [bare .number, bare .plus, bare .number, bare .equal, bare .number, bare .semicolon],
        t.kind ≠ .endOfText)
      ∧ programOf [bare .number, bare .plus, bare .number, bare .equal, bare .number,
          bare .semicolon] = .error [⟨.strayToken "EQUAL", 1⟩]
      ∧ ∃ k e, IsGreatest {n | n ≤ 6 ∧ Extendable ([bare .number, bare .plus, bare .number,
            bare .equal, bare .number, bare .semicolon].take n)} k
        ∧ some ⟨.strayToken "EQUAL", 1⟩ = some e
        ∧ Blames ([bare .number, bare .plus, bare .number, bare .equal, bare .number,
            bare .semicolon].take k)
          ([bare .number, bare .plus, bare .number, bare .equal, bare .number,
            bare .semicolon].drop k) e := by
  have hts : ∀ t ∈ [bare .number, bare .plus, bare .number, bare .equal, bare .number,
      bare .semicolon], t.kind ≠ .endOfText := by
    decide
  have herror : programOf [bare .number, bare .plus, bare .number, bare .equal, bare .number,
      bare .semicolon] = .error [⟨.strayToken "EQUAL", 1⟩] := rfl
  exact ⟨hts, herror, blames_of_programOf_eq_error hts herror⟩

/-- The `=` of `1 = ;` is the first token without a place, and it is not
blamed. -/
theorem equal_not_blamed :
    ¬ ∀ (ts : List Token) (es : List SyntaxError) (k : Nat),
        (∀ t ∈ ts, t.kind ≠ .endOfText) → programOf ts = .error es →
        IsGreatest {n | n ≤ ts.length ∧ Extendable (ts.take n)} k →
        ∃ e, es.head? = some e
          ∧ ((∃ t, ts[k]? = some t ∧ e = ⟨.strayToken t.lexeme, t.line⟩)
            ∨ ∃ cause last, SyntaxCause.isMissing cause ∧ 0 < k ∧ ts[k - 1]? = some last
                ∧ e = ⟨cause, last.line⟩) := by
  intro h
  have hone : Extendable [bare .number] := by
    refine (extendable_iff _).2 ⟨⟨[], rfl⟩, ?_⟩
    rintro f ⟨⟩
  have hequal : ∀ us, ¬ Extendable (bare .number :: bare .equal :: us) := by
    rintro us ⟨vs, p, hp⟩
    have htwo : Extendable [bare .number, bare .equal] := ⟨us ++ vs, p, hp⟩
    obtain ⟨-, hviable⟩ := (extendable_iff _).1 htwo
    obtain ⟨x, hx⟩ := hviable _ List.mem_cons_self
    cases hx
  have hgreatest : IsGreatest {n | n ≤ 3
      ∧ Extendable ([bare .number, bare .equal, bare .semicolon].take n)} 1 := by
    refine ⟨⟨by decide, hone⟩, ?_⟩
    rintro n ⟨hn, hext⟩
    match n with
    | 0 | 1 => decide
    | 2 => exact absurd hext (hequal _)
    | 3 => exact absurd hext (hequal _)
  obtain ⟨e, he, hblamed⟩ := h [bare .number, bare .equal, bare .semicolon]
    [⟨.strayToken "SEMICOLON", 1⟩] 1 (by decide) rfl hgreatest
  obtain rfl := Option.some.inj he
  rcases hblamed with ⟨t, ht, heq⟩ | ⟨cause, last, hcause, -, -, heq⟩
  · obtain rfl := Option.some.inj ht
    exact absurd heq (by decide)
  · obtain ⟨rfl, -⟩ := SyntaxError.mk.inj heq
    cases hcause

end Reader
end LoxScript
