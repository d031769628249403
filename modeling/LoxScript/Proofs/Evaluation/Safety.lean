/-
  LoxScript.Proofs.Evaluation.Safety
  ────────────────────────────────
  A proper tree in scopes of language values never leaves the language.

  Three things keep each other up.  A tree is *proper* if its literals are
  values of the language and its operators are ones that `applyUnary` and
  `applyBinary` know.  Scopes *hold the language* if every value in them is
  one of it.  A result is *safe* if it is a value of the language or an
  error of the script, never a misuse.

      proper tree, scopes hold the language
        ⟶  safe result, scopes hold the language

  What a failed statement has assigned stays assigned, so the scopes are
  spoken of after a failure too.
-/
import LoxScript.Proofs.Evaluation.Occurrences
import LoxScript.Proofs.Grammar

namespace LoxScript

/-! ## §1. Scopes. -/

/-- Every bound value is one of the language. -/
def Scope.HoldsLanguage (s : Scope) : Prop := ∀ n v, s.get? n = some v → v.IsLanguage

/-- Every scope, the innermost and all around it, holds the language. -/
def Chain.HoldsLanguage (c : Chain) : Prop := ∀ s ∈ c.scopes, s.HoldsLanguage

theorem Scope.HoldsLanguage.insert {s : Scope} {v : Value} (h : s.HoldsLanguage)
    (hv : v.IsLanguage) (name : String) : (s.insert name v).HoldsLanguage := by
  intro n w hw
  rw [Scope.get?_insert] at hw
  by_cases hn : n = name
  · rw [if_pos hn] at hw
    obtain rfl := Option.some.inj hw
    exact hv
  · rw [if_neg hn] at hw
    exact h n w hw

theorem lookIn_isLanguage {ss : List Scope} {name : String} {v : Value}
    (h : ∀ s ∈ ss, s.HoldsLanguage) (hv : lookIn name ss = some v) : v.IsLanguage := by
  induction ss with
  | nil => cases hv
  | cons s ss ih =>
    obtain ⟨hs, hss⟩ := List.forall_mem_cons.1 h
    rcases Option.or_eq_some_iff.1 hv with hfirst | ⟨_, hrest⟩
    · exact hs name v hfirst
    · exact ih hss hrest

theorem assignIn_holdsLanguage {ss ss' : List Scope} {name : String} {v : Value}
    (h : ∀ s ∈ ss, s.HoldsLanguage) (hv : v.IsLanguage)
    (ha : assignIn name v ss = some ss') : ∀ s ∈ ss', s.HoldsLanguage := by
  induction ss generalizing ss' with
  | nil => cases ha
  | cons s ss ih =>
    obtain ⟨hs, hss⟩ := List.forall_mem_cons.1 h
    unfold assignIn at ha
    split at ha
    · obtain rfl := Option.some.inj ha
      exact List.forall_mem_cons.2 ⟨hs.insert hv name, hss⟩
    · obtain ⟨rest, hrest, rfl⟩ := Option.map_eq_some_iff.1 ha
      exact List.forall_mem_cons.2 ⟨hs, ih hss hrest⟩

namespace Chain

theorem holdsLanguage_empty : Chain.empty.HoldsLanguage := by
  refine List.forall_mem_cons.2 ⟨?_, by simp [Chain.empty]⟩
  intro n v hv
  cases hv

theorem HoldsLanguage.nest {c : Chain} (h : c.HoldsLanguage) : c.nest.HoldsLanguage := by
  refine List.forall_mem_cons.2 ⟨?_, h⟩
  intro n v hv
  cases hv

theorem HoldsLanguage.define {c : Chain} {v : Value} (h : c.HoldsLanguage) (hv : v.IsLanguage)
    (name : String) : (c.define name v).HoldsLanguage := by
  obtain ⟨hinner, houter⟩ := List.forall_mem_cons.1 h
  exact List.forall_mem_cons.2 ⟨hinner.insert hv name, houter⟩

theorem HoldsLanguage.assign? {c c' : Chain} {name : String} {v : Value} (h : c.HoldsLanguage)
    (hv : v.IsLanguage) (ha : c.assign? name v = some c') : c'.HoldsLanguage := by
  unfold Chain.assign? at ha
  split at ha
  · obtain rfl := Option.some.inj ha
    exact h.define hv name
  · obtain ⟨outer, houter, rfl⟩ := Option.map_eq_some_iff.1 ha
    obtain ⟨hinner, hrest⟩ := List.forall_mem_cons.1 h
    exact List.forall_mem_cons.2 ⟨hinner, assignIn_holdsLanguage hrest hv houter⟩

end Chain

/-! ## §2. Results. -/

/-- The script is to blame, not the tree or a value from outside. -/
def Failure.IsError : Failure → Prop
  | .error _ => True
  | .misuse _ => False

/-- A value of the language, or an error of the script. -/
def SafeResult : Except Failure Value → Prop
  | .ok v => v.IsLanguage
  | .error f => f.IsError

theorem safeResult_fail (cause : EvalCause) (t : Token) : SafeResult (fail cause t) := trivial

/-- Negation and complement make values of the language from any operand. -/
theorem safeResult_applyUnary {op : Token} (hop : op.kind ∈ Kind.unaryOperators) (v : Value) :
    SafeResult (applyUnary op v) := by
  have hkind : op.kind = .bang ∨ op.kind = .minus := by simpa [Kind.unaryOperators] using hop
  unfold applyUnary
  rcases hkind with hk | hk
  · rw [hk]
    trivial
  · rw [hk]
    cases v with
    | number x => trivial
    | _ => exact safeResult_fail _ _

theorem safeResult_add (op : Token) (v w : Value) : SafeResult (add op v w) := by
  unfold add
  split
  · trivial
  · trivial
  · exact safeResult_fail _ _

theorem isLanguage_of_numeric? {k : Kind} {f : Float → Float → Value} (h : numeric? k = some f)
    (x y : Float) : (f x y).IsLanguage := by
  cases k <;> cases h <;> trivial

/-- An operator that binds between two operands is one of the sum, the two
equalities and the numeric operators. -/
theorem exists_numeric?_of_precedence {k : Kind} (hk : 0 < k.precedence) :
    k = .plus ∨ k = .equalEqual ∨ k = .bangEqual ∨ ∃ f, numeric? k = some f := by
  cases k <;> first
    | exact absurd hk (by decide)
    | simp [numeric?]

theorem safeResult_applyBinary {op : Token} (hop : 0 < op.kind.precedence) (v w : Value) :
    SafeResult (applyBinary op v w) := by
  unfold applyBinary
  split
  · exact safeResult_add op v w
  · trivial
  · trivial
  · next hplus hequal hbang =>
    split
    -- no operator is left over
    · next hnone =>
      rcases exists_numeric?_of_precedence hop with hk | hk | hk | ⟨f, hf⟩
      · exact absurd hk hplus
      · exact absurd hk hequal
      · exact absurd hk hbang
      · rw [hnone] at hf
        cases hf
    · next f hf =>
      split
      · exact isLanguage_of_numeric? hf _ _
      · exact safeResult_fail _ _

/-! ## §3. Expressions. -/

/-- Literals of the language, and operators that are applied. -/
def Expr.Proper : Expr → Prop
  | .literal v => v.IsLanguage
  | .name _ => True
  | .paren e | .assign _ e => e.Proper
  | .unary op e => op.kind ∈ Kind.unaryOperators ∧ e.Proper
  | .binary l op r => 0 < op.kind.precedence ∧ l.Proper ∧ r.Proper

theorem safeResult_literalValue {v : Value} (h : v.IsLanguage) : SafeResult (literalValue v) := by
  unfold literalValue
  split
  · exact h.elim
  · exact h

theorem safeResult_readName {c : Chain} (h : c.HoldsLanguage) (t : Token) :
    SafeResult (readName c t) := by
  unfold readName
  split
  · next v hv => exact lookIn_isLanguage h hv
  · exact safeResult_fail _ _

/-- A safe result beside scopes that hold the language. -/
structure SafeEvaluation (r : Except Failure Value × Chain) : Prop where
  result : SafeResult r.1
  chain : r.2.HoldsLanguage

theorem safeEvaluation_writeName {c : Chain} {v : Value} (h : c.HoldsLanguage) (hv : v.IsLanguage)
    (t : Token) : SafeEvaluation (writeName c t v) := by
  unfold writeName
  split
  · next c' hc' => exact ⟨hv, h.assign? hv hc'⟩
  · exact ⟨safeResult_fail _ _, h⟩

/-- A construct that needs the value of an expression, and passes a failure
on. -/
theorem SafeEvaluation.onValue {r : Except Failure Value × Chain} (hr : SafeEvaluation r)
    {use : Value → Chain → Except Failure Value × Chain}
    (huse : ∀ v c, v.IsLanguage → c.HoldsLanguage → SafeEvaluation (use v c)) :
    SafeEvaluation (onValue r use) := by
  obtain ⟨result, c⟩ := r
  cases result with
  | ok v => exact huse v c hr.result hr.chain
  | error f => exact ⟨hr.result, hr.chain⟩

/-- **Expressions.**  A proper expression has a safe result. -/
theorem Expr.safeEvaluation_evaluate {e : Expr} (he : e.Proper) {c : Chain}
    (h : c.HoldsLanguage) : SafeEvaluation (e.evaluate c) := by
  induction e generalizing c with
  | literal v => exact ⟨safeResult_literalValue he, h⟩
  | name t => exact ⟨safeResult_readName h t, h⟩
  | paren e ih => exact ih he h
  | unary op e ih =>
    obtain ⟨hop, he⟩ := he
    rw [Expr.evaluate_unary]
    refine (ih he h).onValue ?_
    intro v c _ hc
    exact ⟨safeResult_applyUnary hop v, hc⟩
  | binary l op r ihl ihr =>
    obtain ⟨hop, hl, hr⟩ := he
    rw [Expr.evaluate_binary]
    refine (ihl hl h).onValue ?_
    intro v c _ hc
    refine (ihr hr hc).onValue ?_
    intro w c _ hc
    exact ⟨safeResult_applyBinary hop v w, hc⟩
  | assign t e ih =>
    rw [Expr.evaluate_assign]
    refine (ih he h).onValue ?_
    intro v c hv hc
    exact safeEvaluation_writeName hc hv t

/-! ## §4. Statements. -/

/-- Properness of the expression in a statement, if there is one. -/
def Stmt.Proper : Stmt → Prop
  | .expression e | .print e | .declare _ (some e) => e.Proper
  | .declare _ none => True

/-- No misuse, and scopes that hold the language. -/
structure Execution.Safe (x : Execution) : Prop where
  result : ∀ f, x.result = .error f → f.IsError
  chain : x.chain.HoldsLanguage

theorem Execution.safe_of_ok {es : List Event} {c : Chain} (h : c.HoldsLanguage) :
    Execution.Safe ⟨es, .ok (), c⟩ := by
  refine ⟨?_, h⟩
  intro f hf
  cases hf

theorem Execution.safe_of_error {es : List Event} {f : Failure} {c : Chain} (hf : f.IsError)
    (h : c.HoldsLanguage) : Execution.Safe ⟨es, .error f, c⟩ := by
  refine ⟨?_, h⟩
  intro g hg
  obtain rfl := Except.error.inj hg
  exact hf

theorem safe_defineName {c : Chain} {v : Value} (h : c.HoldsLanguage) (hv : v.IsLanguage)
    (name : String) : (defineName c name v).Safe :=
  Execution.safe_of_ok (h.define hv name)

theorem exists_printValue {v : Value} (hv : v.IsLanguage) : ∃ es, printValue v = .ok es := by
  obtain ⟨text, htext⟩ := Value.display_isOk_of_isLanguage hv
  unfold printValue
  rw [htext]
  exact ⟨_, rfl⟩

theorem Stmt.Proper.value {s : Stmt} (h : s.Proper) : s.value.Proper := by
  cases s with
  | expression e => exact h
  | print e => exact h
  | declare t init =>
    cases init with
    | none => trivial
    | some e => exact h

/-- The deed of a statement with a value of the language. -/
theorem Stmt.safe_deed (s : Stmt) {v : Value} {c : Chain} (hv : v.IsLanguage)
    (h : c.HoldsLanguage) : (s.deed v c).Safe := by
  cases s with
  | expression e => exact Execution.safe_of_ok h
  | print e =>
    -- the only place where a misuse could arise from a value
    obtain ⟨es, hes⟩ := exists_printValue hv
    rw [Stmt.deed, hes]
    exact Execution.safe_of_ok h
  | declare t init => exact safe_defineName h hv t.lexeme

/-- **Statements.** -/
theorem Stmt.safe_execute {s : Stmt} (hs : s.Proper) {c : Chain} (h : c.HoldsLanguage) :
    (s.execute c).Safe := by
  have hvalue := Expr.safeEvaluation_evaluate hs.value h
  cases hevaluate : s.value.evaluate c with | mk result c' =>
  rw [hevaluate] at hvalue
  cases result with
  | error f =>
    rw [Stmt.execute_of_failure hevaluate]
    exact Execution.safe_of_error hvalue.result hvalue.chain
  | ok v =>
    rw [Stmt.execute_of_value hevaluate]
    exact s.safe_deed hvalue.result hvalue.chain

/-- **Statements one after another.** -/
theorem safe_execute {p : List Stmt} (hp : ∀ s ∈ p, s.Proper) {c : Chain}
    (h : c.HoldsLanguage) : (execute p c).Safe := by
  -- on the statements; each one starts in the scopes that the last one left
  induction p generalizing c with
  | nil => exact Execution.safe_of_ok h
  | cons s p ih =>
    obtain ⟨hs, hp⟩ := List.forall_mem_cons.1 hp
    have hfirst := Stmt.safe_execute hs h
    unfold execute
    dsimp only
    split
    · exact hfirst
    · have hrest := ih hp hfirst.chain
      exact ⟨hrest.result, hrest.chain⟩

end LoxScript
