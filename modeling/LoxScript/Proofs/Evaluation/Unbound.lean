/-
  LoxScript.Proofs.Evaluation.Unbound
  ────────────────────────────────
  Which names will have no value can be read off the program.

  A name that is read or assigned is *unbound* where it occurs if it was
  visible in no scope at the start and no `var` before it declares it.  That
  takes no evaluation: which names are bound at an occurrence depends on the
  occurrences before it and not on any value, because only `var` binds and
  nothing unbinds (`Chain.BindsAfter`).

  Evaluation follows the occurrences from the first on, and stops

      behind the last one        if it succeeds; then none is unbound
      at an unbound one          with the failure that blames it; it is the first
      at an operator             with a failure of its operands; none before it
                                 is unbound

  How far it has come is `reached`, and the three cases are `Progress`.
-/
import LoxScript.Proofs.Evaluation.Errors
import LoxScript.Proofs.Evaluation.Frame
import LoxScript.Proofs.Run.Joined
import LoxScript.Proofs.Run.Safety

namespace LoxScript

/-! ## §1. Unbound occurrences. -/

/-- An occurrence behind some others needs a name that was not visible at the
start and is declared by none of them. -/
def IsUnbound (c : Chain) (before : List Occurrence) (o : Occurrence) : Prop :=
  ∃ t, o.needs? = some t ∧ c.get? t.lexeme = none ∧ ¬ DeclaredIn before t.lexeme

/-- No occurrence is unbound. -/
def AllBound (c : Chain) (os : List Occurrence) : Prop :=
  ∀ before o after, os = before ++ o :: after → ¬ IsUnbound c before o

/-- Behind some occurrences, the visible names are those from before and the
declared ones. -/
def Chain.BindsAfter (c : Chain) (os : List Occurrence) (c' : Chain) : Prop :=
  ∀ n, (c'.get? n).isSome ↔ (c.get? n).isSome ∨ DeclaredIn os n

section Unbound

variable {c c' c'' : Chain} {as bs : List Occurrence}

theorem Chain.BindsAfter.trans (has : c.BindsAfter as c') (hbs : c'.BindsAfter bs c'') :
    c.BindsAfter (as ++ bs) c'' := by
  intro n
  rw [hbs n, has n, declaredIn_append, or_assoc]

/-- What is unbound behind more occurrences is unbound in the scopes that those
lead to. -/
theorem Chain.BindsAfter.isUnbound_iff (h : c.BindsAfter as c') (before : List Occurrence)
    (o : Occurrence) : IsUnbound c (as ++ before) o ↔ IsUnbound c' before o := by
  have hnone : ∀ n, c'.get? n = none ↔ c.get? n = none ∧ ¬ DeclaredIn as n := by
    intro n
    rw [← Option.not_isSome_iff_eq_none, h n, not_or, Option.not_isSome_iff_eq_none]
  unfold IsUnbound
  constructor
  · rintro ⟨t, ht, hget, hnot⟩
    rw [declaredIn_append, not_or] at hnot
    exact ⟨t, ht, (hnone _).2 ⟨hget, hnot.1⟩, hnot.2⟩
  · rintro ⟨t, ht, hget, hnot⟩
    obtain ⟨hget, hnot'⟩ := (hnone _).1 hget
    refine ⟨t, ht, hget, ?_⟩
    rw [declaredIn_append, not_or]
    exact ⟨hnot', hnot⟩

theorem allBound_nil (c : Chain) : AllBound c [] := by
  intro before o after h
  simp at h

theorem AllBound.append (has : AllBound c as) (hafter : c.BindsAfter as c')
    (hbs : AllBound c' bs) : AllBound c (as ++ bs) := by
  intro before o after h
  rcases List.append_eq_append_iff.1 h with ⟨middle, rfl, hmiddle⟩ | ⟨middle, rfl, hmiddle⟩
  · -- the occurrence is one of `bs`
    rw [hafter.isUnbound_iff]
    exact hbs middle o after hmiddle
  · cases middle with
    | nil =>
      rw [← List.append_nil before]
      rw [List.append_nil] at hafter
      rw [hafter.isUnbound_iff]
      exact hbs [] o after hmiddle.symm
    | cons o' middle =>
      -- the occurrence is one of `as`
      rw [List.cons_append, List.cons.injEq] at hmiddle
      obtain ⟨rfl, -⟩ := hmiddle
      exact has before o middle rfl

/-- With a single occurrence there is only the start to look at. -/
theorem allBound_singleton {o : Occurrence} (h : ¬ IsUnbound c [] o) : AllBound c [o] := by
  intro before o' after hsplit
  cases before with
  | nil =>
    rw [List.nil_append, List.cons.injEq] at hsplit
    rw [← hsplit.1]
    exact h
  | cons first before => simp at hsplit

end Unbound

/-! ## §2. How far evaluation comes. -/

/-- What is reached behind an evaluation: nothing, if that has no value. -/
def reachedBehind (r : Except Failure Value × Chain) (next : Chain → List Occurrence) :
    List Occurrence :=
  match r with
  | (.ok _, c) => next c
  | (.error _, _) => []

/-- The occurrences of an expression that evaluation gets to. -/
def Expr.reached : Expr → Chain → List Occurrence
  | .literal _, _ => []
  | .paren e, c => e.reached c
  | .unary op e, c => e.reached c ++ reachedBehind (e.evaluate c) fun _ => [.applies op]
  | .binary l op r, c =>
    l.reached c ++ reachedBehind (l.evaluate c) fun c =>
      r.reached c ++ reachedBehind (r.evaluate c) fun _ => [.applies op]
  | .name t, _ => [.reads t]
  | .assign t e, c => e.reached c ++ reachedBehind (e.evaluate c) fun _ => [.assigns t]

/-- The occurrences of a statement that are got to. -/
def Stmt.reached (s : Stmt) (c : Chain) : List Occurrence :=
  s.value.reached c ++ reachedBehind (s.value.evaluate c) fun _ => s.declared

/-- The occurrences of statements that are got to, up to the first statement
that fails. -/
def reached : List Stmt → Chain → List Occurrence
  | [], _ => []
  | s :: ss, c =>
    match (s.execute c).result with
    | .ok () => s.reached c ++ reached ss (s.execute c).chain
    | .error _ => s.reached c

/-- How far evaluation has come among its occurrences, and what stopped it. -/
inductive Progress {α : Type} (c : Chain) (os : List Occurrence) :
    List Occurrence → Except Failure α → Prop where
  /-- Nothing did, and no occurrence is unbound. -/
  | through (a : α) : AllBound c os → Progress c os os (.ok a)
  /-- The first unbound occurrence. -/
  | unbound {before after : List Occurrence} {o : Occurrence} {t : Token} :
      os = before ++ o :: after → o.needs? = some t → IsUnbound c before o →
      AllBound c before → Progress c os (before ++ [o]) (.error (.error ⟨.unboundName, t⟩))
  /-- The operands of an operator. -/
  | operand {before after : List Occurrence} {op : Token} {cause : EvalCause} :
      os = before ++ .applies op :: after → cause ≠ .unboundName → AllBound c before →
      Progress c os (before ++ [.applies op]) (.error (.error ⟨cause, op⟩))
  /-- A tree or a value that no script makes. -/
  | misuse (m : Misuse) (reached : List Occurrence) : Progress c os reached (.error (.misuse m))

namespace Progress

variable {α β : Type} {c c' : Chain} {as bs reachedA reachedB : List Occurrence}

/-- A failure stays where it is, whatever would have come behind it. -/
theorem cut {f : Failure} (h : Progress c as reachedA (.error f : Except Failure α))
    (bs : List Occurrence) : Progress c (as ++ bs) reachedA (.error f : Except Failure β) := by
  have hsplit {before after : List Occurrence} {o : Occurrence} (h : as = before ++ o :: after) :
      as ++ bs = before ++ o :: (after ++ bs) := by
    rw [h, List.append_assoc, List.cons_append]
  cases h with
  | unbound has ht hunbound hbefore => exact .unbound (hsplit has) ht hunbound hbefore
  | operand has hcause hbefore => exact .operand (hsplit has) hcause hbefore
  | misuse m => exact .misuse m _

/-- Evaluation with a value has got through all occurrences. -/
theorem of_ok {a : α} (h : Progress c as reachedA (.ok a)) : reachedA = as ∧ AllBound c as := by
  cases h with
  | through _ has => exact ⟨rfl, has⟩

/-- Behind occurrences that have been got through, evaluation goes on in the
scopes that they lead to. -/
theorem append (has : AllBound c as) (hafter : c.BindsAfter as c') {r : Except Failure β}
    (h : Progress c' bs reachedB r) : Progress c (as ++ bs) (as ++ reachedB) r := by
  cases h with
  | through b hbs => exact .through b (has.append hafter hbs)
  | @unbound before after o t hsplit ht hunbound hbefore =>
    -- unbound behind `before` in the new scopes, and so behind `as ++ before` in the old ones
    have hsplit' : as ++ bs = as ++ before ++ o :: after := by rw [hsplit, List.append_assoc]
    rw [← List.append_assoc]
    exact .unbound hsplit' ht ((hafter.isUnbound_iff before o).2 hunbound)
      (has.append hafter hbefore)
  | @operand before after op cause hsplit hcause hbefore =>
    have hsplit' : as ++ bs = as ++ before ++ .applies op :: after := by
      rw [hsplit, List.append_assoc]
    rw [← List.append_assoc]
    exact .operand hsplit' hcause (has.append hafter hbefore)
  | misuse m => exact .misuse m _

/-- What is done with a value goes on behind the occurrences of the
expression. -/
theorem onValue {r : Except Failure Value × Chain} (hr : Progress c as reachedA r.1)
    (hafter : c.BindsAfter as r.2) {use : Value → Chain → Except Failure Value × Chain}
    {next : Chain → List Occurrence}
    (huse : ∀ v (d : Chain), Progress d bs (next d) (use v d).1) :
    Progress c (as ++ bs) (reachedA ++ reachedBehind r next) (onValue r use).1 := by
  obtain ⟨result, d⟩ := r
  cases result with
  | error f =>
    rw [reachedBehind, List.append_nil]
    exact hr.cut bs
  | ok v =>
    obtain ⟨rfl, has⟩ := hr.of_ok
    exact append has hafter (huse v d)

end Progress

/-! ## §3. Operators and names. -/

theorem allBound_applies (c : Chain) (op : Token) : AllBound c [.applies op] := by
  refine allBound_singleton ?_
  rintro ⟨t, ht, -⟩
  cases ht

theorem Applied.progress {op : Token} {r : Except Failure Value} (h : Applied op r) (c : Chain) :
    Progress c [.applies op] [.applies op] r := by
  cases h with
  | value v => exact .through v (allBound_applies c op)
  | misuse m => exact .misuse m _
  | operand _ hcause =>
    show Progress c [.applies op] ([] ++ [.applies op]) _
    exact .operand rfl hcause (allBound_nil c)

/-- A name is looked up with success where it is bound. -/
theorem allBound_of_isSome {c : Chain} {o : Occurrence} {t : Token} (ht : o.needs? = some t)
    (h : (c.get? t.lexeme).isSome) : AllBound c [o] := by
  refine allBound_singleton ?_
  rintro ⟨u, hu, hnone, -⟩
  rw [ht, Option.some.injEq] at hu
  rw [hu, hnone] at h
  cases h

/-- The search for a name ends at its only occurrence. -/
theorem progress_of_none {α : Type} {c : Chain} {o : Occurrence} {t : Token}
    (ht : o.needs? = some t) (h : c.get? t.lexeme = none) :
    Progress c [o] [o] (fail .unboundName t : Except Failure α) := by
  show Progress c [o] ([] ++ [o]) _
  refine .unbound rfl ht ⟨t, ht, h, ?_⟩ (allBound_nil c)
  rintro ⟨u, hu, -⟩
  exact absurd hu List.not_mem_nil

theorem progress_readName (c : Chain) (t : Token) :
    Progress c [.reads t] [.reads t] (readName c t) := by
  unfold readName
  split
  · next v hv => exact .through v (allBound_of_isSome rfl (by rw [hv]; rfl))
  · next hnone => exact progress_of_none rfl hnone

theorem progress_writeName (c : Chain) (t : Token) (v : Value) :
    Progress c [.assigns t] [.assigns t] (writeName c t v).1 := by
  have hassign := c.isSome_assign? t.lexeme v
  unfold writeName
  split
  · next c' hc' =>
    rw [hc'] at hassign
    exact .through v (allBound_of_isSome rfl hassign.symm)
  · next hnone =>
    rw [hnone] at hassign
    exact progress_of_none rfl (Option.not_isSome_iff_eq_none.1 (by simp [← hassign]))

/-! ## §4. Expressions and statements. -/

/-- Assignments leave the visible names as they are. -/
theorem Chain.Assigns.isSome_get? {names : String → Prop} {c c' : Chain}
    (h : c.Assigns names c') (n : String) : (c'.get? n).isSome = (c.get? n).isSome := by
  induction h with
  | refl => rfl
  | @assign c' c'' name v _ _ hassign ih =>
    rw [← ih, Chain.get?_of_assign? hassign]
    by_cases hname : n = name
    · have hsome := c'.isSome_assign? name v
      rw [hassign] at hsome
      rw [if_pos hname, hname, ← hsome]
      rfl
    · rw [if_neg hname]

theorem Expr.bindsAfter_evaluate (e : Expr) (c : Chain) :
    c.BindsAfter e.occurrences (e.evaluate c).2 := by
  intro n
  rw [(e.assigns_evaluate c).isSome_get?]
  exact (or_iff_left (e.not_declaredIn n)).symm

/-- **Expressions.** -/
theorem Expr.progress_evaluate (e : Expr) (c : Chain) :
    Progress c e.occurrences (e.reached c) (e.evaluate c).1 := by
  induction e generalizing c with
  | literal v =>
    show Progress c [] [] (literalValue v)
    unfold literalValue
    split
    · exact .misuse _ _
    · exact .through _ (allBound_nil c)
  | name t => exact progress_readName c t
  | paren e ih => exact ih c
  | unary op e ih =>
    rw [Expr.evaluate_unary]
    refine (ih c).onValue (e.bindsAfter_evaluate c) ?_
    intro v d
    exact (applied_applyUnary op v).progress d
  | binary l op r ihl ihr =>
    rw [Expr.evaluate_binary]
    refine (ihl c).onValue (l.bindsAfter_evaluate c) ?_
    intro v d
    refine (ihr d).onValue (r.bindsAfter_evaluate d) ?_
    intro w d
    exact (applied_applyBinary op v w).progress d
  | assign t e ih =>
    rw [Expr.evaluate_assign]
    refine (ih c).onValue (e.bindsAfter_evaluate c) ?_
    intro v d
    exact progress_writeName d t v

/-- A statement that is executed to its end has bound what it declares. -/
theorem Stmt.bindsAfter_execute {s : Stmt} {c : Chain} (h : (s.execute c).result = .ok ()) :
    c.BindsAfter s.occurrences (s.execute c).chain := by
  obtain ⟨v, c', hvalue, hchain⟩ := Stmt.of_execute_ok h
  have hafter := s.value.bindsAfter_evaluate c
  rw [hvalue] at hafter
  rw [hchain, s.occurrences_eq]
  refine hafter.trans ?_
  intro n
  cases s with
  | expression e => simp [Stmt.bind, Stmt.declared, DeclaredIn]
  | print e => simp [Stmt.bind, Stmt.declared, DeclaredIn]
  | declare t init =>
    rw [Stmt.bind, Chain.get?_define]
    by_cases hn : n = t.lexeme
    · simp [Stmt.declared, DeclaredIn, hn]
    · simp [Stmt.declared, DeclaredIn, hn, Ne.symm hn]

/-- Nothing that a statement declares is unbound. -/
theorem Stmt.allBound_declared (s : Stmt) (c : Chain) : AllBound c s.declared := by
  cases s with
  | expression e => exact allBound_nil c
  | print e => exact allBound_nil c
  | declare t init =>
    refine allBound_singleton ?_
    rintro ⟨u, hu, -⟩
    cases hu

/-- **A statement.** -/
theorem Stmt.progress_execute (s : Stmt) (c : Chain) :
    Progress c s.occurrences (s.reached c) (s.execute c).result := by
  have hvalue := s.value.progress_evaluate c
  have hafter := s.value.bindsAfter_evaluate c
  rw [s.occurrences_eq, Stmt.reached]
  cases hevaluate : s.value.evaluate c with | mk result c' =>
  rw [hevaluate] at hvalue hafter
  cases result with
  | error f =>
    rw [Stmt.execute_of_failure hevaluate, reachedBehind, List.append_nil]
    exact hvalue.cut s.declared
  | ok v =>
    rw [Stmt.execute_of_value hevaluate, reachedBehind]
    rcases s.deed_cases v c' with ⟨m, hdeed⟩ | ⟨es, hdeed⟩
    · rw [hdeed]
      exact .misuse m _
    · obtain ⟨hreached, has⟩ := hvalue.of_ok
      rw [hdeed, hreached]
      exact .append has hafter (.through () (s.allBound_declared c'))

/-- **Statements one after another.** -/
theorem progress_execute (p : List Stmt) (c : Chain) :
    Progress c (occurrencesOf p) (reached p c) (execute p c).result := by
  -- on the statements; each one starts in the scopes that the last one left
  induction p generalizing c with
  | nil => exact .through () (allBound_nil c)
  | cons s p ih =>
    have hfirst := s.progress_execute c
    show Progress c (s.occurrences ++ occurrencesOf p) _ _
    cases hresult : (s.execute c).result with
    | error f =>
      rw [execute_cons_of_error hresult, reached, hresult]
      rw [hresult] at hfirst
      exact hfirst.cut (occurrencesOf p)
    | ok u =>
      rw [execute_cons_of_ok hresult, reached, hresult]
      rw [hresult] at hfirst
      obtain ⟨hreached, has⟩ := hfirst.of_ok
      dsimp only
      rw [hreached]
      exact .append has (Stmt.bindsAfter_execute hresult) (ih _)

/-! ## §5. Runs. -/

/-- A run of a program ends as its occurrences and the names visible at the
start have it. -/
structure Run.FollowsNames (r : Run) (c : Chain) (p : List Stmt) : Prop where
  ends : r.outcome = .ok ⟨.finished, []⟩ ∨ ∃ e, r.outcome = .ok ⟨.failed, [.evaluate e]⟩
  finished : r.outcome = .ok ⟨.finished, []⟩ → AllBound c (occurrencesOf p)
  /-- The name that is blamed is the first unbound one, and evaluation has come
  so far and no further. -/
  unbound : ∀ t, r.outcome = .ok ⟨.failed, [.evaluate ⟨.unboundName, t⟩]⟩ →
    ∃ before o after, occurrencesOf p = before ++ o :: after ∧ reached p c = before ++ [o]
      ∧ o.needs? = some t ∧ IsUnbound c before o ∧ AllBound c before
  /-- No name before the operator that is blamed is unbound. -/
  operand : ∀ cause t, r.outcome = .ok ⟨.failed, [.evaluate ⟨cause, t⟩]⟩ →
    cause ≠ .unboundName →
    ∃ before after, occurrencesOf p = before ++ .applies t :: after
      ∧ reached p c = before ++ [.applies t] ∧ AllBound c before
  bound : AllBound c (occurrencesOf p) →
    ∀ t, r.outcome ≠ .ok ⟨.failed, [.evaluate ⟨.unboundName, t⟩]⟩

/-- What a result with an outcome that blames a token must be. -/
theorem eq_error_of_outcomeOf {result : Except Failure Unit} {e : EvalError}
    (h : outcomeOf result = .ok ⟨.failed, [.evaluate e]⟩) : result = .error (.error e) := by
  cases result with
  | ok u => simp [outcomeOf] at h
  | error f =>
    cases f with
    | error e' =>
      simp only [outcomeOf, Except.ok.injEq, Outcome.mk.injEq, List.cons.injEq,
        Problem.evaluate.injEq] at h
      rw [h.2.1]
    | misuse m => simp [outcomeOf] at h

theorem eq_ok_of_outcomeOf {result : Except Failure Unit}
    (h : outcomeOf result = .ok ⟨.finished, []⟩) : result = .ok () := by
  cases result with
  | ok u => rfl
  | error f => cases f <;> simp [outcomeOf] at h

theorem Progress.exists_unbound {α : Type} {c : Chain} {os got : List Occurrence} {t : Token}
    (h : Progress c os got (.error (.error ⟨.unboundName, t⟩) : Except Failure α)) :
    ∃ before o after, os = before ++ o :: after ∧ got = before ++ [o]
      ∧ o.needs? = some t ∧ IsUnbound c before o ∧ AllBound c before := by
  cases h with
  | unbound hsplit ht hunbound hbefore => exact ⟨_, _, _, hsplit, rfl, ht, hunbound, hbefore⟩
  | operand _ hcause _ => exact absurd rfl hcause

theorem Progress.exists_operand {α : Type} {c : Chain} {os got : List Occurrence} {t : Token}
    {cause : EvalCause} (h : Progress c os got (.error (.error ⟨cause, t⟩) : Except Failure α))
    (hcause : cause ≠ .unboundName) :
    ∃ before after, os = before ++ .applies t :: after ∧ got = before ++ [.applies t]
      ∧ AllBound c before := by
  cases h with
  | unbound _ _ _ _ => exact absurd rfl hcause
  | operand hsplit _ hbefore => exact ⟨_, _, hsplit, rfl, hbefore⟩

/-- **UNDEFINED NAMES ARE THE STATICALLY UNBOUND ONES.**  A program in scopes of
language values finishes only if no name in it is unbound; if it fails for want
of a name, the name is the first unbound one in order of evaluation; and if it
fails for its operands, no name before the operator is unbound.  It never fails
for want of a name if none is unbound. -/
theorem followsNames_run {source : String} {p : List Stmt} {c : Chain}
    (hprogram : (compile source).2 = .ok p) (hlanguage : c.HoldsLanguage) :
    (run source c).FollowsNames c p := by
  have hprogress := progress_execute p c
  have houtcome : (run source c).outcome = outcomeOf (execute p c).result :=
    (run_program hprogram c).2.2
  have hfailed {e : EvalError} (h : (run source c).outcome = .ok ⟨.failed, [.evaluate e]⟩) :
      Progress c (occurrencesOf p) (reached p c) (.error (.error e) : Except Failure Unit) := by
    rw [houtcome] at h
    rwa [eq_error_of_outcomeOf h] at hprogress
  obtain ⟨o, ho⟩ := (safe_run source hlanguage).outcome
  constructor
  case ends =>
    -- in scopes of language values there is an outcome, so nothing was misused
    rw [houtcome] at ho ⊢
    generalize (execute p c).result = result at ho ⊢
    cases result with
    | ok u => exact .inl rfl
    | error f =>
      cases f with
      | error e => exact .inr ⟨e, rfl⟩
      | misuse m => cases ho
  case finished =>
    intro h
    rw [houtcome] at h
    rw [eq_ok_of_outcomeOf h] at hprogress
    exact hprogress.of_ok.2
  case unbound =>
    intro t h
    exact (hfailed h).exists_unbound
  case operand =>
    intro cause t h hcause
    exact (hfailed h).exists_operand hcause
  case bound =>
    intro hbound t h
    obtain ⟨before, o, after, hsplit, -, -, hunbound, -⟩ := (hfailed h).exists_unbound
    exact hbound before o after hsplit hunbound

/-- The statement `var b = a + (c = b);`, which reads the name that it is about
to declare. -/
def selfReading : List Stmt :=
  let name (lexeme : String) : Token := ⟨.identifier, lexeme, .name lexeme, 1⟩
  [.declare (name "b") (some (.binary (.name (name "a")) ⟨.plus, "+", .nil, 1⟩
    (.paren (.assign (name "c") (.name (name "b"))))))]

theorem followsNames_run_selfReading :
    (compile "var b = a + (c = b);").2 = .ok selfReading
      ∧ nestedScopes.HoldsLanguage
      ∧ (run "var b = a + (c = b);" nestedScopes).outcome
          = .ok ⟨.failed, [.evaluate ⟨.unboundName, ⟨.identifier, "b", .name "b", 1⟩⟩]⟩
      ∧ (run "var b = a + (c = b);" nestedScopes).FollowsNames nestedScopes selfReading := by
  have hprogram : (compile "var b = a + (c = b);").2 = .ok selfReading := by cbv
  have houtcome : (run "var b = a + (c = b);" nestedScopes).outcome
      = .ok ⟨.failed, [.evaluate ⟨.unboundName, ⟨.identifier, "b", .name "b", 1⟩⟩]⟩ := by
    rw [(run_program hprogram nestedScopes).2.2]
    cbv
  exact ⟨hprogram, holdsLanguage_nestedScopes, houtcome,
    followsNames_run hprogram holdsLanguage_nestedScopes⟩

end LoxScript
