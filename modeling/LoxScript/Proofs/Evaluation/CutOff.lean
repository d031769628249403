/-
  LoxScript.Proofs.Evaluation.CutOff
  ────────────────────────────────
  A statement that fails cuts the statements off cleanly.

      s₁ … sₖ₋₁      executed to their end
      sₖ             its expression has been evaluated, as far as that went
      sₖ₊₁ …         make no difference

  Of the failing statement nothing can be observed but what its expression
  has assigned: a `print` has not written, and a `var` has not bound.
-/
import LoxScript.Proofs.Evaluation.Frame

namespace LoxScript

/-- An execution of `before` to its end and then of the statement `s` in vain,
no matter what comes behind it. -/
structure CutsOff (before : List Stmt) (s : Stmt) (c : Chain) (x : Execution) : Prop where
  succeeds : (execute before c).result = .ok ()
  events : x.events = (execute before c).events
  /-- All scopes have the names that `before` leaves.  Bindings differ from
  those only where `s` assigns. -/
  bindings : Retouched (AssignedIn s.occurrences) (execute before c).chain.scopes x.chain.scopes
  /-- The declared name has in the innermost scope the value that `before`
  leaves there, unless the initializer has assigned it. -/
  unbound : ∀ t init v, s = .declare t init → x.chain.inner.get? t.lexeme = some v →
    (execute before c).chain.inner.get? t.lexeme = some v
      ∨ ((execute before c).chain.inner.binds t.lexeme ∧ AssignedIn s.occurrences t.lexeme)
  rest : ∀ rest, execute (before ++ s :: rest) c = x

/-- Where nothing but assignments has been made, what the innermost scope binds
is a binding from before them, or a name of theirs that was bound. -/
theorem Retouched.inner {names : String → Prop} {c c' : Chain}
    (h : Retouched names c.scopes c'.scopes) {n : String} {v : Value}
    (hv : c'.inner.get? n = some v) : c.inner.get? n = some v ∨ (c.inner.binds n ∧ names n) := by
  by_cases hsame : c'.inner.get? n = c.inner.get? n
  · left
    rw [← hsame]
    exact hv
  · right
    have hbinds : c.inner.binds n = (c'.inner.get? n).isSome := (h.binds 0 n).symm
    rw [hbinds, hv]
    exact ⟨rfl, (h.nearest 0 n hsame).1⟩

theorem cutsOff_nil {s : Stmt} {c : Chain} {f : Failure} (h : (s.execute c).result = .error f) :
    CutsOff [] s c (s.execute c) := by
  obtain ⟨hevents, hchain⟩ := Stmt.of_execute_error h
  have hbindings : Retouched (AssignedIn s.occurrences) c.scopes (s.execute c).chain.scopes := by
    rw [hchain, s.occurrences_eq]
    refine (s.value.retouched_evaluate c).mono ?_
    intro n hn
    exact hn.mono (List.subset_append_left _ _)
  constructor
  case succeeds => rfl
  case events => exact hevents
  case bindings => exact hbindings
  case unbound =>
    intro t init v _ hv
    exact hbindings.inner hv
  case rest =>
    intro rest
    exact execute_cons_of_error h rest

theorem CutsOff.cons {first s : Stmt} {before : List Stmt} {c : Chain} {x : Execution}
    (hfirst : (first.execute c).result = .ok ())
    (h : CutsOff before s (first.execute c).chain x) :
    CutsOff (first :: before) s c { x with events := (first.execute c).events ++ x.events } := by
  have hbefore := execute_cons_of_ok hfirst before
  constructor
  case succeeds =>
    rw [hbefore]
    exact h.succeeds
  case events => rw [hbefore, h.events]
  case bindings =>
    rw [hbefore]
    exact h.bindings
  case unbound =>
    rw [hbefore]
    exact h.unbound
  case rest =>
    intro rest
    rw [List.cons_append, execute_cons_of_ok hfirst, h.rest]

/-- **A FAILURE CUTS OFF CLEANLY.**  Statements that fail fail at one of them.
Those before it have been executed to their end, and made all the events; all
scopes have the names that those leave, and the bindings differ from theirs
only where the failing statement assigns, which has bound no name itself; and
other statements behind it would not change anything. -/
theorem exists_cutsOff {p : List Stmt} {c : Chain} {f : Failure}
    (h : (execute p c).result = .error f) :
    ∃ before s after, p = before ++ s :: after ∧ CutsOff before s c (execute p c) := by
  -- on the statements; the scopes in which the failing one starts are not those at first
  induction p generalizing c with
  | nil => cases h
  | cons s p ih =>
    cases hresult : (s.execute c).result with
    | error g =>
      -- this is the statement that fails
      rw [execute_cons_of_error hresult]
      exact ⟨[], s, p, rfl, cutsOff_nil hresult⟩
    | ok u =>
      rw [execute_cons_of_ok hresult] at h ⊢
      obtain ⟨before, s', after, hp, hcuts⟩ := ih h
      exact ⟨s :: before, s', after, by rw [hp, List.cons_append], hcuts.cons hresult⟩

/-- The statements `var b = a; print b; var b = (a = b = nil) + c; print b;`,
of which the third fails when it has assigned both names. -/
def cutOffProgram : List Stmt :=
  let name (lexeme : String) : Token := ⟨.identifier, lexeme, .name lexeme, 1⟩
  let assigned := Expr.assign (name "a") (.assign (name "b") (.literal .nil))
  [.declare (name "b") (some (.name (name "a"))), .print (.name (name "b")),
   .declare (name "b")
     (some (.binary (.paren assigned) ⟨.plus, "+", .nil, 1⟩ (.name (name "c")))),
   .print (.name (name "b"))]

theorem exists_cutsOff_assigned :
    (execute cutOffProgram (Chain.empty.define "a" (.text "x")).nest).result
        = .error (.error ⟨.unboundName, ⟨.identifier, "c", .name "c", 1⟩⟩)
      ∧ ∃ before s after, cutOffProgram = before ++ s :: after
          ∧ CutsOff before s (Chain.empty.define "a" (.text "x")).nest
              (execute cutOffProgram (Chain.empty.define "a" (.text "x")).nest) := by
  have hresult : (execute cutOffProgram (Chain.empty.define "a" (.text "x")).nest).result
      = .error (.error ⟨.unboundName, ⟨.identifier, "c", .name "c", 1⟩⟩) := by
    cbv
  exact ⟨hresult, exists_cutsOff hresult⟩

end LoxScript
