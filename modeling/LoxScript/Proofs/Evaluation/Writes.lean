/-
  LoxScript.Proofs.Evaluation.Writes
  ────────────────────────────────
  All that a program does to its scopes.

  Scopes change in two ways only: a name is defined in the innermost one, or
  a bound name is assigned.  Whatever is run, and however it ends, the scopes
  behind it come from those before it by such writes (`Chain.Leads`).  So
  what a single write preserves is preserved by every run:

      Leads.keeps     — a name that is bound stays bound
-/
import LoxScript.Proofs.Evaluation.Frame
import LoxScript.Proofs.Run.Session

namespace LoxScript

/-! ## §1. Writes. -/

/-- Scopes that definitions and assignments lead to, one after another. -/
inductive Chain.Leads (c : Chain) : Chain → Prop where
  | refl : Leads c c
  | define {c' : Chain} (name : String) (v : Value) : Leads c c' → Leads c (c'.define name v)
  | assign {c' c'' : Chain} {name : String} {v : Value} :
      Leads c c' → c'.assign? name v = some c'' → Leads c c''

namespace Chain

theorem Leads.trans {a b c : Chain} (hab : a.Leads b) (hbc : b.Leads c) : a.Leads c := by
  induction hbc with
  | refl => exact hab
  | define name v _ ih => exact .define name v ih
  | assign _ hassign ih => exact .assign ih hassign

/-- Every name that is bound stays bound. -/
def Keeps (c c' : Chain) : Prop := ∀ n, (c.get? n).isSome → (c'.get? n).isSome

theorem Leads.keeps {c c' : Chain} (h : c.Leads c') : c.Keeps c' := by
  intro n hn
  induction h with
  | refl => exact hn
  | define name v _ ih =>
    rw [get?_define]
    by_cases hname : n = name
    · rw [if_pos hname]
      rfl
    · rw [if_neg hname]
      exact ih
  | assign _ hassign ih =>
    rw [get?_of_assign? hassign]
    split
    · rfl
    · exact ih

end Chain

/-! ## §2. Expressions and statements. -/

/-- Assignments alone are writes. -/
theorem Chain.Assigns.leads {names : String → Prop} {c c' : Chain} (h : c.Assigns names c') :
    c.Leads c' := by
  induction h with
  | refl => exact .refl
  | assign _ _ hassign ih => exact .assign ih hassign

theorem Expr.leads_evaluate (e : Expr) (c : Chain) : c.Leads (e.evaluate c).2 :=
  (e.assigns_evaluate c).leads

theorem Stmt.leads_execute (s : Stmt) (c : Chain) : c.Leads (s.execute c).chain := by
  have hvalue := s.value.leads_evaluate c
  rcases s.chain_execute_cases c with hchain | ⟨v, hchain⟩
  · rw [hchain]
    exact hvalue
  · rw [hchain]
    cases s with
    | expression e => exact hvalue
    | print e => exact hvalue
    | declare t init => exact .define t.lexeme v hvalue

theorem leads_execute (p : List Stmt) (c : Chain) : c.Leads (execute p c).chain := by
  induction p generalizing c with
  | nil => exact .refl
  | cons s p ih =>
    have hfirst := s.leads_execute c
    rw [execute]
    cases hresult : (s.execute c).result with
    | error f => exact hfirst
    | ok u => exact hfirst.trans (ih _)

/-! ## §3. Runs. -/

theorem leads_run (source : String) (c : Chain) : c.Leads (run source c).chain := by
  cases hcompile : (compile source).2 with
  | error ps =>
    rw [run_of_error hcompile]
    exact .refl
  | ok p =>
    rw [run_of_ok hcompile]
    show c.Leads (runProgram p c).chain
    rw [chain_runProgram]
    exact leads_execute p c

theorem leads_chainAfter (sources : List String) (c : Chain) : c.Leads (chainAfter sources c) := by
  induction sources generalizing c with
  | nil => exact .refl
  | cons source sources ih => exact (leads_run source c).trans (ih _)

end LoxScript
