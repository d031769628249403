/-
  LoxScript.Proofs.Run.Signals
  ────────────────────────────────
  All that a run writes, and where.

  The sink of the program gets one line for every print statement that is
  executed to its end, and nothing else.  The sink of the reports gets one
  line for every problem, and nothing else.  And all lines of the program come
  before all reports:

      write "1⏎"  flush  write "nil⏎"  flush  │  write "[line 3] Error: ..⏎"  flush
      ── the program ─────────────────────────┼── the reports ─────────────────────

  `signals_run` says this for any choice of sinks, so a stream for one sink
  and a stream for both are two instances of it.
-/
import LoxScript.Proofs.Evaluation.Occurrences
import LoxScript.Proofs.Reader.Errors
import LoxScript.Proofs.Run.Session

namespace LoxScript

/-! ## §1. Print statements. -/

/-- A print statement that is executed: its expression, and the scopes in
which that is evaluated. -/
structure Printing where
  expr : Expr
  chain : Chain

/-- The value that is printed. -/
def Printing.Has (x : Printing) (v : Value) : Prop := (x.expr.evaluate x.chain).1 = .ok v

/-- The execution of a statement in given scopes, if it prints. -/
def Stmt.printing? : Stmt → Chain → Option Printing
  | .print e, c => some ⟨e, c⟩
  | .expression _, _ | .declare _ _, _ => none

/-- The print statements that are executed to their end, in order. -/
def printings : List Stmt → Chain → List Printing
  | [], _ => []
  | s :: ss, c =>
    match (s.execute c).result with
    | .error _ => []
    | .ok () => (s.printing? c).toList ++ printings ss (s.execute c).chain

/-- Those of a source text; there are none if it is no program. -/
def printingsOf (source : String) (c : Chain) : List Printing :=
  match (compile source).2 with
  | .ok p => printings p c
  | .error _ => []

theorem printings_cons_of_error {s : Stmt} {c : Chain} {f : Failure}
    (h : (s.execute c).result = .error f) (ss : List Stmt) : printings (s :: ss) c = [] := by
  rw [printings, h]

theorem printings_cons_of_ok {s : Stmt} {c : Chain} (h : (s.execute c).result = .ok ())
    (ss : List Stmt) :
    printings (s :: ss) c = (s.printing? c).toList ++ printings ss (s.execute c).chain := by
  rw [printings, h]

/-! ## §2. What is written. -/

/-- The line of one printed text. -/
def lineSignals (text : String) : List Signal := [.write (text ++ "\n"), .flush]

/-- The lines of some problems; nothing at all if there are none. -/
def reportSignals : List Problem → List Signal
  | [] => []
  | ps => ps.map (fun p => .write (p.report ++ "\n")) ++ [.flush]

/-- The display forms of the values that some print statements print. -/
def Displays (xs : List Printing) (texts : List String) : Prop :=
  ∃ vs, List.Forall₂ Printing.Has xs vs
    ∧ List.Forall₂ (fun v text => v.display = .ok text) vs texts

theorem Displays.nil : Displays [] [] := ⟨[], .nil, .nil⟩

theorem Displays.append {xs ys : List Printing} {texts texts' : List String}
    (h : Displays xs texts) (h' : Displays ys texts') : Displays (xs ++ ys) (texts ++ texts') := by
  obtain ⟨vs, hvs, htexts⟩ := h
  obtain ⟨ws, hws, htexts'⟩ := h'
  exact ⟨vs ++ ws, List.rel_append hvs hws, List.rel_append htexts htexts'⟩

/-- What a stream sees of printed texts. -/
def seenOf (serves : Sink → Bool) (texts : List String) : List Signal :=
  if serves .program then texts.flatMap lineSignals else []

theorem seenOf_nil (serves : Sink → Bool) : seenOf serves [] = [] := by
  unfold seenOf
  split <;> rfl

theorem seenOf_append (serves : Sink → Bool) (texts texts' : List String) :
    seenOf serves (texts ++ texts') = seenOf serves texts ++ seenOf serves texts' := by
  unfold seenOf
  split
  · exact List.flatMap_append
  · rfl

theorem written_append (a b : List Signal) : written (a ++ b) = written a ++ written b := by
  unfold written
  rw [List.map_append, String.join_append]

theorem written_flatMap {α : Type} (xs : List α) (f : α → List Signal) :
    written (xs.flatMap f) = String.join (xs.map fun x => written (f x)) := by
  induction xs with
  | nil => rfl
  | cons x xs ih => rw [List.flatMap_cons, written_append, ih, List.map_cons, String.join_cons]

/-! ## §3. Statements. -/

/-- All that a statement can do: it fails and writes nothing, it prints a
value, or it ends without a word but for a log. -/
inductive Stmt.Does (s : Stmt) (c : Chain) : Execution → Prop where
  | fails {f : Failure} {c' : Chain} : Does s c ⟨[], .error f, c'⟩
  | prints {x : Printing} {v : Value} {text : String} {c' : Chain} :
      s.printing? c = some x → x.Has v → v.display = .ok text →
      Does s c ⟨(lineSignals text).map (.signal .program), .ok (), c'⟩
  | notes {ns : List Notice} {c' : Chain} :
      s.printing? c = none → Does s c ⟨ns.map .notice, .ok (), c'⟩

theorem Stmt.does_execute (s : Stmt) (c : Chain) : s.Does c (s.execute c) := by
  have noted {s : Stmt} (ns : List Notice) (c' : Chain) (hs : s.printing? c = none) :
      s.Does c ⟨ns.map .notice, .ok (), c'⟩ := .notes hs
  cases hvalue : s.value.evaluate c with | mk result c' =>
  cases result with
  | error f =>
    rw [Stmt.execute_of_failure hvalue]
    exact .fails
  | ok v =>
    rw [Stmt.execute_of_value hvalue]
    cases s with
    | expression e => exact noted [] c' rfl
    | declare t init => exact noted [.defined t.lexeme v] _ rfl
    | print e =>
      have hhas : Printing.Has ⟨e, c⟩ v := congrArg Prod.fst hvalue
      rw [Stmt.deed, printValue]
      cases htext : v.display with
      | error m => exact .fails
      | ok text => exact .prints rfl hhas htext

theorem signals_notices (serves : Sink → Bool) (ns : List Notice) :
    signals serves (ns.map .notice) = [] := by
  unfold signals
  rw [List.filterMap_map, List.filterMap_eq_nil_iff]
  exact fun _ _ => rfl

theorem signals_lineSignals (serves : Sink → Bool) (text : String) :
    signals serves ((lineSignals text).map (.signal .program)) = seenOf serves [text] := by
  unfold signals seenOf
  cases hserves : serves .program <;> simp [hserves, lineSignals]

/-- A statement that fails has written nothing. -/
theorem Stmt.signals_of_error (serves : Sink → Bool) {s : Stmt} {c : Chain} {f : Failure}
    (h : (s.execute c).result = .error f) : signals serves (s.execute c).events = [] := by
  rw [(Stmt.of_execute_error h).1]
  rfl

/-- A statement that is executed to its end has written a line if it prints,
and nothing otherwise. -/
theorem Stmt.signals_of_ok {s : Stmt} {c : Chain} (h : (s.execute c).result = .ok ()) :
    ∃ texts, Displays (s.printing? c).toList texts
      ∧ ∀ serves, signals serves (s.execute c).events = seenOf serves texts := by
  have hdoes := s.does_execute c
  generalize s.execute c = x at h hdoes
  cases hdoes with
  | fails => cases h
  | @prints x v text c' hx hv htext =>
    rw [hx]
    exact ⟨[text], ⟨[v], .cons hv .nil, .cons htext .nil⟩,
      fun serves => signals_lineSignals serves text⟩
  | @notes ns c' hx =>
    rw [hx]
    refine ⟨[], .nil, fun serves => ?_⟩
    rw [seenOf_nil]
    exact signals_notices serves ns

/-- **Statements one after another** write a line for each print statement
that is executed to its end. -/
theorem signals_execute (p : List Stmt) (c : Chain) :
    ∃ texts, Displays (printings p c) texts
      ∧ ∀ serves, signals serves (execute p c).events = seenOf serves texts := by
  induction p generalizing c with
  | nil => exact ⟨[], .nil, fun serves => (seenOf_nil serves).symm⟩
  | cons s p ih =>
    cases hresult : (s.execute c).result with
    | error f =>
      refine ⟨[], ?_, fun serves => ?_⟩
      · rw [printings_cons_of_error hresult]
        exact .nil
      · rw [seenOf_nil, execute, hresult]
        exact Stmt.signals_of_error serves hresult
    | ok u =>
      obtain ⟨texts, hfirst, hsignals⟩ := Stmt.signals_of_ok hresult
      obtain ⟨texts', hrest, hsignals'⟩ := ih (s.execute c).chain
      refine ⟨texts ++ texts', ?_, fun serves => ?_⟩
      · rw [printings_cons_of_ok hresult]
        exact hfirst.append hrest
      · rw [seenOf_append, execute, hresult]
        dsimp only
        rw [signals_append, hsignals, hsignals']

/-! ## §4. Runs. -/

/-- All that is wrong, as far as the run has an outcome. -/
def Run.problems (r : Run) : List Problem :=
  match r.outcome with
  | .ok o => o.problems
  | .error _ => []

theorem signals_reportAll_of_ne_nil (serves : Sink → Bool) {ps : List Problem} (h : ps ≠ []) :
    signals serves (reportAll ps) = if serves .reports then reportSignals ps else [] := by
  obtain ⟨p, ps, rfl⟩ := List.exists_cons_of_ne_nil h
  exact signals_reportAll serves (p :: ps)

/-- A program writes the lines of its print statements, then its problem. -/
theorem signals_runProgram (serves : Sink → Bool) (p : List Stmt) (c : Chain) :
    signals serves (runProgram p c).events
      = signals serves (execute p c).events
        ++ if serves .reports then reportSignals (runProgram p c).problems else [] := by
  have hnotice : ∀ n es, signals serves (.notice n :: es) = signals serves es := fun _ _ => rfl
  unfold runProgram
  dsimp only
  split
  · simp [hnotice, Run.problems, reportSignals]
  · rw [List.cons_append, hnotice, signals_append,
      signals_reportAll_of_ne_nil serves (List.cons_ne_nil _ _)]
    rfl
  · simp [hnotice, Run.problems, reportSignals]

/-- A text that is no program has at least one problem. -/
theorem ne_nil_of_compile {source : String} {ps : List Problem}
    (h : (compile source).2 = .error ps) : ps ≠ [] := by
  unfold compile at h
  split at h
  · obtain rfl := Except.error.inj h
    exact List.cons_ne_nil _ _
  · dsimp only at h
    split at h
    · next es hes =>
      obtain rfl := Except.error.inj h
      rw [ne_eq, List.map_eq_nil_iff]
      exact (programOf_eq_error hes).2
    · cases h

/-- **A RUN** writes the lines of its print statements to the sink of the
program, and after them the problems to the sink of the reports. -/
theorem signals_run (source : String) (c : Chain) :
    ∃ texts, Displays (printingsOf source c) texts
      ∧ ∀ serves, signals serves (run source c).events
          = seenOf serves texts
            ++ if serves .reports then reportSignals (run source c).problems else [] := by
  unfold printingsOf
  cases hcompile : (compile source).2 with
  | error ps =>
    refine ⟨[], .nil, fun serves => ?_⟩
    rw [run_of_error hcompile, seenOf_nil, List.nil_append]
    show signals serves (_ ++ _) = _
    rw [signals_append, signals_compile,
      signals_reportAll_of_ne_nil serves (ne_nil_of_compile hcompile)]
    rfl
  | ok p =>
    obtain ⟨texts, hdisplays, hsignals⟩ := signals_execute p c
    refine ⟨texts, hdisplays, fun serves => ?_⟩
    rw [run_of_ok hcompile]
    show signals serves (_ ++ _) = _
    rw [signals_append, signals_compile, List.nil_append, signals_runProgram, hsignals]
    rfl

theorem reports_run (source : String) (c : Chain) :
    signalsOf .reports (run source c).events = reportSignals (run source c).problems := by
  obtain ⟨texts, -, hsignals⟩ := signals_run source c
  rw [signalsOf, hsignals, if_pos (by decide)]
  rfl

end LoxScript
