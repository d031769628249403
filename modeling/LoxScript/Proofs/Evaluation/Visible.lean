/-
  LoxScript.Proofs.Evaluation.Visible
  ────────────────────────────────
  A program sees no more of its scopes than what its names mean.

  It looks a name up, gives a visible name another value, and binds a name
  innermost.  Each of the three is an equation about look-ups, in which it
  does not show how many scopes there are or which of them binds the name.
  So all visible bindings can be put into one scope (`Chain.flatten`), and
  the diagram closes, with the same events and the same end on both sides:

      scopes        ──execute p──▶   scopes after it
        │ flatten                      │ flatten
      one scope     ──execute p──▶   one scope after it
-/
import LoxScript.Evaluation
import Mathlib

namespace LoxScript

/-! ## §1. Look-ups after an assignment. -/

theorem lookIn_of_assignIn {name : String} {value : Value} {ss ss' : List Scope}
    (h : assignIn name value ss = some ss') (n : String) :
    lookIn n ss' = if n = name then some value else lookIn n ss := by
  induction ss generalizing ss' with
  | nil => cases h
  | cons s ss ih =>
    unfold assignIn at h
    by_cases hs : s.binds name
    · rw [if_pos hs] at h
      obtain rfl := Option.some.inj h
      by_cases hn : n = name
      · rw [if_pos hn, lookIn, Scope.get?_insert, if_pos hn, Option.some_or]
      · rw [if_neg hn, lookIn, Scope.get?_insert, if_neg hn, lookIn]
    · rw [if_neg hs] at h
      obtain ⟨rest, hrest, rfl⟩ := Option.map_eq_some_iff.1 h
      rw [lookIn, ih hrest, lookIn]
      by_cases hn : n = name
      · -- the scope passed over does not hide the new value
        have hnone : s.get? n = none := by
          rw [hn]
          simpa [Scope.binds] using hs
        rw [if_pos hn, if_pos hn, hnone, Option.none_or]
      · rw [if_neg hn, if_neg hn]

namespace Chain

/-- All scopes together are searched as the outer ones are behind the inner
one. -/
theorem assignIn_scopes {c c' : Chain} {name : String} {value : Value}
    (h : c.assign? name value = some c') : assignIn name value c.scopes = some c'.scopes := by
  unfold assign? at h
  rw [scopes, assignIn]
  by_cases hs : c.inner.binds name
  · rw [if_pos hs] at h ⊢
    obtain rfl := Option.some.inj h
    rfl
  · rw [if_neg hs] at h ⊢
    obtain ⟨outer, houter, rfl⟩ := Option.map_eq_some_iff.1 h
    rw [houter]
    rfl

/-- An assignment gives the name its value and leaves all other names alone. -/
theorem get?_of_assign? {c c' : Chain} {name : String} {value : Value}
    (h : c.assign? name value = some c') (n : String) :
    c'.get? n = if n = name then some value else c.get? n :=
  lookIn_of_assignIn (assignIn_scopes h) n

end Chain

/-! ## §2. One scope for all that is visible. -/

/-- The bindings of a scope, and behind them those of another. -/
def Scope.over (s t : Scope) : Scope := s.bindings.foldr (fun b u => u.insert b.1 b.2) t

@[simp] theorem Scope.get?_over (s t : Scope) (n : String) :
    (s.over t).get? n = (s.get? n).or (t.get? n) := by
  unfold Scope.over Scope.get?
  generalize s.bindings = bs
  induction bs with
  | nil => rfl
  | cons b bs ih =>
    show ((bs.foldr (fun b u => u.insert b.1 b.2) t).insert b.1 b.2).get? n = _
    rw [Scope.get?_insert, List.lookup_cons]
    by_cases hn : n = b.1
    · rw [if_pos hn, beq_iff_eq.2 hn, Option.some_or]
    · rw [if_neg hn, beq_eq_false_iff_ne.2 hn]
      exact ih

/-- What is visible of scopes, the nearest first. -/
def visibleIn : List Scope → Scope
  | [] => Scope.empty
  | s :: ss => s.over (visibleIn ss)

theorem get?_visibleIn (ss : List Scope) (n : String) : (visibleIn ss).get? n = lookIn n ss := by
  induction ss with
  | nil => rfl
  | cons s ss ih => rw [visibleIn, Scope.get?_over, ih, lookIn]

/-- A scope binds what is visible in a chain: the same names, with the values
that they have there. -/
def Scope.Shows (s : Scope) (c : Chain) : Prop := ∀ n, s.get? n = c.get? n

namespace Chain

/-- All that is visible, in a single scope. -/
def flatten (c : Chain) : Chain := ⟨visibleIn c.scopes, []⟩

@[simp] theorem get?_flatten (c : Chain) (n : String) : c.flatten.get? n = c.get? n := by
  show ((visibleIn c.scopes).get? n).or none = _
  rw [Option.or_none, get?_visibleIn]
  rfl

theorem shows_flatten (c : Chain) : c.flatten.inner.Shows c := get?_visibleIn c.scopes

/-- A single scope is no more than what is visible in it. -/
theorem flatten_eq_of_shows {c : Chain} {s : Scope} (h : s.Shows c) : ⟨s, []⟩ = c.flatten := by
  have hscope : s = c.flatten.inner :=
    Scope.ext_get? fun n => (h n).trans (shows_flatten c n).symm
  rw [hscope]
  rfl

/-- Chains that show the same are one chain when flattened. -/
theorem flatten_congr {c c' : Chain} (h : ∀ n, c.get? n = c'.get? n) : c.flatten = c'.flatten :=
  flatten_eq_of_shows fun n => (shows_flatten c n).trans (h n)

theorem flatten_define (c : Chain) (name : String) (value : Value) :
    c.flatten.define name value = (c.define name value).flatten := by
  refine flatten_eq_of_shows fun n => ?_
  rw [get?_define, Scope.get?_insert, shows_flatten]

theorem flatten_assign? (c : Chain) (name : String) (value : Value) :
    c.flatten.assign? name value = (c.assign? name value).map flatten := by
  -- where the name is bound does not matter, only whether it is visible
  have hbinds : c.flatten.inner.binds name = (c.assign? name value).isSome := by
    rw [isSome_assign?, Scope.binds, shows_flatten]
  unfold assign?
  rw [hbinds]
  show (if _ then _ else none) = (c.assign? name value).map flatten
  cases h : c.assign? name value with
  | none => rfl
  | some c' =>
    show some (c.flatten.define name value) = some c'.flatten
    rw [flatten_define]
    refine congrArg some (flatten_congr fun n => ?_)
    rw [get?_define, get?_of_assign? h]

end Chain

/-! ## §3. Expressions. -/

theorem readName_flatten (c : Chain) (t : Token) : readName c.flatten t = readName c t := by
  rw [readName, Chain.get?_flatten, readName]

theorem writeName_flatten (c : Chain) (t : Token) (v : Value) :
    writeName c.flatten t v = ((writeName c t v).1, (writeName c t v).2.flatten) := by
  unfold writeName
  rw [Chain.flatten_assign?]
  cases c.assign? t.lexeme v <;> rfl

/-- **Expressions** have the same value, or fail alike. -/
theorem Expr.evaluate_flatten (e : Expr) (c : Chain) :
    e.evaluate c.flatten = ((e.evaluate c).1, (e.evaluate c).2.flatten) := by
  induction e generalizing c with
  | literal v => rfl
  | paren e ih => exact ih c
  | unary op e ih =>
    simp only [Expr.evaluate, ih]
    obtain ⟨result, c'⟩ := e.evaluate c
    cases result <;> rfl
  | binary l op r ihl ihr =>
    simp only [Expr.evaluate, ihl]
    obtain ⟨result, c'⟩ := l.evaluate c
    cases result with
    | error f => rfl
    | ok v =>
      simp only [ihr]
      obtain ⟨result', c''⟩ := r.evaluate c'
      cases result' <;> rfl
  | name t => simp only [Expr.evaluate, readName_flatten]
  | assign t e ih =>
    simp only [Expr.evaluate, ih]
    obtain ⟨result, c'⟩ := e.evaluate c
    cases result with
    | error f => rfl
    | ok v => exact writeName_flatten c' t v

/-! ## §4. Statements. -/

/-- What is done, with all that is visible after it in a single scope. -/
def Execution.flatten (x : Execution) : Execution := { x with chain := x.chain.flatten }

theorem defineName_flatten (c : Chain) (name : String) (v : Value) :
    defineName c.flatten name v = (defineName c name v).flatten := by
  unfold defineName
  rw [Chain.flatten_define]
  rfl

theorem Stmt.execute_flatten (s : Stmt) (c : Chain) :
    s.execute c.flatten = (s.execute c).flatten := by
  match s with
  | .expression e =>
    simp only [Stmt.execute, Expr.evaluate_flatten]
    obtain ⟨result, c'⟩ := e.evaluate c
    cases result <;> rfl
  | .print e =>
    simp only [Stmt.execute, Expr.evaluate_flatten]
    obtain ⟨result, c'⟩ := e.evaluate c
    cases result with
    | ok v =>
      dsimp only
      cases printValue v <;> rfl
    | error f => rfl
  | .declare t none => exact defineName_flatten c t.lexeme .nil
  | .declare t (some e) =>
    simp only [Stmt.execute, Expr.evaluate_flatten]
    obtain ⟨result, c'⟩ := e.evaluate c
    cases result with
    | ok v => exact defineName_flatten c' t.lexeme v
    | error f => rfl

/-- **Statements one after another.** -/
theorem execute_flatten (p : List Stmt) (c : Chain) :
    execute p c.flatten = (execute p c).flatten := by
  induction p generalizing c with
  | nil => rfl
  | cons s p ih =>
    simp only [execute, Stmt.execute_flatten]
    obtain ⟨es, result, c'⟩ := s.execute c
    cases result with
    | error f => rfl
    | ok u =>
      simp only [Execution.flatten, ih]

/-- **SCOPES ARE AS GOOD AS ONE.**  Whatever the statements are, in the one
scope that binds what is visible they do what they do in the scopes: the same
events and the same end, and what that scope binds afterwards is what is
visible afterwards. -/
theorem execute_of_shows (p : List Stmt) {c : Chain} {s : Scope} (h : s.Shows c) :
    ∃ s', execute p ⟨s, []⟩
        = ⟨(execute p c).events, (execute p c).result, ⟨s', []⟩⟩
      ∧ s'.Shows (execute p c).chain := by
  refine ⟨(execute p c).chain.flatten.inner, ?_, Chain.shows_flatten _⟩
  rw [Chain.flatten_eq_of_shows h, execute_flatten]
  rfl

/-- The name `a` in two scopes, the name `b` in the outer one. -/
def shadowedScopes : Chain :=
  ((Chain.empty.define "a" .nil).define "b" .nil).nest.define "a" (.text "i")

/-- The statements `b = a; var b; (b = a) + c;`: an assignment further out, a
name that is hidden from then on, and an assignment before a failure. -/
def shadowingProgram : List Stmt :=
  let name (lexeme : String) : Token := ⟨.identifier, lexeme, .name lexeme, 1⟩
  let assigned := Expr.assign (name "b") (.name (name "a"))
  [.expression assigned, .declare (name "b") none,
   .expression (.binary (.paren assigned) ⟨.plus, "+", .nil, 1⟩ (.name (name "c")))]

theorem execute_of_shows_shadowed :
    (Scope.ofList [("b", .nil), ("a", .text "i")]).Shows shadowedScopes
      ∧ ∃ s', execute shadowingProgram ⟨Scope.ofList [("b", .nil), ("a", .text "i")], []⟩
          = ⟨[.notice (.defined "b" .nil)],
              .error (.error ⟨.unboundName, ⟨.identifier, "c", .name "c", 1⟩⟩), ⟨s', []⟩⟩
        ∧ s'.Shows (execute shadowingProgram shadowedScopes).chain := by
  have hshows : (Scope.ofList [("b", .nil), ("a", .text "i")]).Shows shadowedScopes := by
    intro n
    simp only [Scope.ofList, List.foldl_cons, List.foldl_nil, shadowedScopes, Scope.get?_insert,
      Chain.get?_define, Chain.get?_nest]
    by_cases ha : n = "a"
    · rw [if_pos ha, if_pos ha]
    · rw [if_neg ha, if_neg ha, if_neg ha]
      rfl
  have hexecute := execute_of_shows shadowingProgram hshows
  have hevents : (execute shadowingProgram shadowedScopes).events
      = [.notice (.defined "b" .nil)] := by cbv
  have hresult : (execute shadowingProgram shadowedScopes).result
      = .error (.error ⟨.unboundName, ⟨.identifier, "c", .name "c", 1⟩⟩) := by cbv
  rw [hevents, hresult] at hexecute
  exact ⟨hshows, hexecute⟩

end LoxScript
