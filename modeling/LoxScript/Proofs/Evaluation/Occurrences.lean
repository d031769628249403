/-
  LoxScript.Proofs.Evaluation.Occurrences
  ────────────────────────────────
  Where evaluation looks at names, and in which order.

  A program is seen here as a list of *occurrences*: its names and operators,
  in the order in which evaluation gets to them.  What is assigned comes after
  the value, and what is declared after its initializer:

      var a = b = c + d;      ⟶      reads c, reads d, applies +,
                                      assigns b, declares a

  What is evaluated goes on behind its first operand only with a value, and
  hands a failure on (`onValue`).  And every statement has the same course, in
  which only the last step differs: its expression is evaluated
  (`Stmt.value`), and its deed is done with the value (`Stmt.deed`).  So what
  is to be known of a statement's execution is said once for all kinds:
  `Stmt.of_execute_error` and `Stmt.of_execute_ok`.
-/
import LoxScript.Evaluation
import Mathlib

namespace LoxScript

/-! ## §1. Occurrences. -/

/-- A point of a program at which evaluation asks for a name or applies an
operator. -/
inductive Occurrence where
  /-- The value of a name is asked for. -/
  | reads (t : Token)
  /-- A name gets another value. -/
  | assigns (t : Token)
  /-- A name is bound. -/
  | declares (t : Token)
  /-- An operator is applied to the values of its operands. -/
  | applies (op : Token)

namespace Occurrence

/-- The name that stands there. -/
def name? : Occurrence → Option String
  | reads t | assigns t | declares t => some t.lexeme
  | applies _ => none

/-- The token of a name that has to be bound already. -/
def needs? : Occurrence → Option Token
  | reads t | assigns t => some t
  | declares _ | applies _ => none

end Occurrence

/-- The occurrences of an expression, in order of evaluation. -/
def Expr.occurrences : Expr → List Occurrence
  | .literal _ => []
  | .paren e => e.occurrences
  | .unary op e => e.occurrences ++ [.applies op]
  | .binary l op r => l.occurrences ++ (r.occurrences ++ [.applies op])
  | .name t => [.reads t]
  | .assign t e => e.occurrences ++ [.assigns t]

/-- The occurrences of a statement, in order of evaluation. -/
def Stmt.occurrences : Stmt → List Occurrence
  | .expression e | .print e => e.occurrences
  | .declare t none => [.declares t]
  | .declare t (some e) => e.occurrences ++ [.declares t]

/-- The occurrences of statements, one after another. -/
def occurrencesOf (p : List Stmt) : List Occurrence := p.flatMap Stmt.occurrences

/-! ## §2. Names of occurrences. -/

/-- The name gets another value at one of the occurrences. -/
def AssignedIn (os : List Occurrence) (n : String) : Prop := ∃ t, .assigns t ∈ os ∧ t.lexeme = n

/-- The name is bound at one of the occurrences. -/
def DeclaredIn (os : List Occurrence) (n : String) : Prop := ∃ t, .declares t ∈ os ∧ t.lexeme = n

/-- The name is bound or gets another value at one of the occurrences. -/
def WrittenIn (os : List Occurrence) (n : String) : Prop := AssignedIn os n ∨ DeclaredIn os n

/-- The name stands at one of the occurrences, whatever is done with it there. -/
def OccursIn (os : List Occurrence) (n : String) : Prop := ∃ o ∈ os, o.name? = some n

section Names

variable {as bs : List Occurrence} {n : String}

theorem AssignedIn.mono (hsub : as ⊆ bs) (h : AssignedIn as n) : AssignedIn bs n := by
  obtain ⟨t, ht, hn⟩ := h
  exact ⟨t, hsub ht, hn⟩

theorem DeclaredIn.mono (hsub : as ⊆ bs) (h : DeclaredIn as n) : DeclaredIn bs n := by
  obtain ⟨t, ht, hn⟩ := h
  exact ⟨t, hsub ht, hn⟩

theorem OccursIn.mono (hsub : as ⊆ bs) (h : OccursIn as n) : OccursIn bs n := by
  obtain ⟨o, ho, hn⟩ := h
  exact ⟨o, hsub ho, hn⟩

theorem declaredIn_append : DeclaredIn (as ++ bs) n ↔ DeclaredIn as n ∨ DeclaredIn bs n := by
  simp only [DeclaredIn, List.mem_append]
  grind

theorem WrittenIn.occursIn (h : WrittenIn as n) : OccursIn as n := by
  rcases h with ⟨t, ht, hn⟩ | ⟨t, ht, hn⟩
  · exact ⟨.assigns t, ht, congrArg some hn⟩
  · exact ⟨.declares t, ht, congrArg some hn⟩

end Names

/-- No expression binds a name. -/
theorem Expr.not_declares_mem (e : Expr) (t : Token) : .declares t ∉ e.occurrences := by
  induction e with
  | literal v => simp [Expr.occurrences]
  | paren e ih => exact ih
  | unary op e ih => simp [Expr.occurrences, ih]
  | binary l op r ihl ihr => simp [Expr.occurrences, ihl, ihr]
  | name u => simp [Expr.occurrences]
  | assign u e ih => simp [Expr.occurrences, ih]

theorem Expr.not_declaredIn (e : Expr) (n : String) : ¬ DeclaredIn e.occurrences n := by
  rintro ⟨t, ht, -⟩
  exact e.not_declares_mem t ht

/-! ## §3. The course of an expression. -/

/-- What is done with the value of an evaluation.  A failure is handed on. -/
def onValue (r : Except Failure Value × Chain)
    (use : Value → Chain → Except Failure Value × Chain) : Except Failure Value × Chain :=
  match r with
  | (.ok v, c) => use v c
  | (.error f, c) => (.error f, c)

theorem Expr.evaluate_unary (op : Token) (e : Expr) (c : Chain) :
    (Expr.unary op e).evaluate c = onValue (e.evaluate c) fun v c => (applyUnary op v, c) := rfl

theorem Expr.evaluate_binary (l : Expr) (op : Token) (r : Expr) (c : Chain) :
    (Expr.binary l op r).evaluate c
      = onValue (l.evaluate c) fun v c =>
          onValue (r.evaluate c) fun w c => (applyBinary op v w, c) := rfl

theorem Expr.evaluate_assign (t : Token) (e : Expr) (c : Chain) :
    (Expr.assign t e).evaluate c = onValue (e.evaluate c) fun v c => writeName c t v := rfl

/-! ## §4. The course of a statement. -/

namespace Stmt

/-- The expression of a statement.  A declaration without one takes nil. -/
def value : Stmt → Expr
  | .expression e | .print e | .declare _ (some e) => e
  | .declare _ none => .literal .nil

/-- What a statement does with the value of its expression. -/
def deed : Stmt → Value → Chain → Execution
  | .expression _, _, c => ⟨[], .ok (), c⟩
  | .print _, v, c =>
    match printValue v with
    | .ok es => ⟨es, .ok (), c⟩
    | .error m => ⟨[], .error (.misuse m), c⟩
  | .declare t _, v, c => defineName c t.lexeme v

/-- The scopes after the deed of a statement. -/
def bind : Stmt → Value → Chain → Chain
  | .expression _, _, c | .print _, _, c => c
  | .declare t _, v, c => c.define t.lexeme v

/-- The name that a statement binds, as an occurrence behind those of its
expression. -/
def declared : Stmt → List Occurrence
  | .expression _ | .print _ => []
  | .declare t _ => [.declares t]

theorem occurrences_eq (s : Stmt) : s.occurrences = s.value.occurrences ++ s.declared := by
  cases s with
  | expression e => exact (List.append_nil _).symm
  | print e => exact (List.append_nil _).symm
  | declare t init =>
    cases init with
    | none => rfl
    | some e => rfl

variable {s : Stmt} {c c' : Chain}

theorem execute_of_value {v : Value} (h : s.value.evaluate c = (.ok v, c')) :
    s.execute c = s.deed v c' := by
  cases s with
  | expression e => rw [execute, show e.evaluate c = _ from h, deed]
  | print e =>
    rw [execute, show e.evaluate c = _ from h]
    rfl
  | declare t init =>
    cases init with
    | none =>
      cases h
      rfl
    | some e => rw [execute, show e.evaluate c = _ from h, deed]

theorem execute_of_failure {f : Failure} (h : s.value.evaluate c = (.error f, c')) :
    s.execute c = ⟨[], .error f, c'⟩ := by
  cases s with
  | expression e => rw [execute, show e.evaluate c = _ from h]
  | print e => rw [execute, show e.evaluate c = _ from h]
  | declare t init =>
    cases init with
    | none => cases h
    | some e => rw [execute, show e.evaluate c = _ from h]

/-- A deed is done, or the value cannot be printed and nothing is done. -/
theorem deed_cases (s : Stmt) (v : Value) (c : Chain) :
    (∃ m, s.deed v c = ⟨[], .error (.misuse m), c⟩)
      ∨ ∃ es, s.deed v c = ⟨es, .ok (), s.bind v c⟩ := by
  cases s with
  | expression e => exact .inr ⟨_, rfl⟩
  | declare t init => exact .inr ⟨_, rfl⟩
  | print e =>
    rw [deed]
    cases printValue v with
    | ok es => exact .inr ⟨es, rfl⟩
    | error m => exact .inl ⟨m, rfl⟩

/-- **A statement that fails** has made no event, and its expression alone has
been evaluated. -/
theorem of_execute_error {f : Failure} (h : (s.execute c).result = .error f) :
    (s.execute c).events = [] ∧ (s.execute c).chain = (s.value.evaluate c).2 := by
  cases hvalue : s.value.evaluate c with | mk result c' =>
  cases result with
  | error g =>
    rw [execute_of_failure hvalue]
    exact ⟨rfl, rfl⟩
  | ok v =>
    rw [execute_of_value hvalue] at h ⊢
    rcases s.deed_cases v c' with ⟨m, hdeed⟩ | ⟨es, hdeed⟩
    · rw [hdeed]
      exact ⟨rfl, rfl⟩
    · rw [hdeed] at h
      cases h

/-- **A statement that is executed to its end** has done its deed with the
value of its expression. -/
theorem of_execute_ok (h : (s.execute c).result = .ok ()) :
    ∃ v c', s.value.evaluate c = (.ok v, c') ∧ (s.execute c).chain = s.bind v c' := by
  cases hvalue : s.value.evaluate c with | mk result c' =>
  cases result with
  | error g =>
    rw [execute_of_failure hvalue] at h
    cases h
  | ok v =>
    rw [execute_of_value hvalue] at h ⊢
    rcases s.deed_cases v c' with ⟨m, hdeed⟩ | ⟨es, hdeed⟩
    · rw [hdeed] at h
      cases h
    · rw [hdeed]
      exact ⟨v, c', rfl, rfl⟩

/-- The scopes after a statement are those after its expression, and perhaps
its own name is bound in them. -/
theorem chain_execute_cases (s : Stmt) (c : Chain) :
    (s.execute c).chain = (s.value.evaluate c).2
      ∨ ∃ v, (s.execute c).chain = s.bind v (s.value.evaluate c).2 := by
  cases hresult : (s.execute c).result with
  | error f => exact .inl (of_execute_error hresult).2
  | ok u =>
    obtain ⟨v, c', hvalue, hchain⟩ := of_execute_ok hresult
    rw [hvalue]
    exact .inr ⟨v, hchain⟩

end Stmt

/-- A statement that fails is the last one. -/
theorem execute_cons_of_error {s : Stmt} {c : Chain} {f : Failure}
    (h : (s.execute c).result = .error f) (p : List Stmt) : execute (s :: p) c = s.execute c := by
  rw [execute, h]

/-- Behind a statement that is executed to its end, the others go on. -/
theorem execute_cons_of_ok {s : Stmt} {c : Chain} (h : (s.execute c).result = .ok ())
    (p : List Stmt) :
    execute (s :: p) c
      = ⟨(s.execute c).events ++ (execute p (s.execute c).chain).events,
          (execute p (s.execute c).chain).result, (execute p (s.execute c).chain).chain⟩ := by
  rw [execute, h]

end LoxScript
