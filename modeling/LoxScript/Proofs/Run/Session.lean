/-
  LoxScript.Proofs.Run.Session
  ────────────────────────────────
  Runs one after another, and what a rejected text does among them.

  A session hands on nothing but the scopes.  A text that cannot be scanned
  or read leaves them as they were, so no other run of a session can tell
  whether it was there:

      session_append      — a session goes on where its first part has ended
      session_kept        — a session without its rejected texts
-/
import LoxScript.Run
import Mathlib

namespace LoxScript

/-! ## §1. Sessions. -/

/-- How a run ended, if it has an outcome. -/
def Run.status? (r : Run) : Option Status :=
  match r.outcome with
  | .ok o => some o.status
  | .error _ => none

/-- The scopes that source texts leave behind, run one after another. -/
def chainAfter : List String → Chain → Chain
  | [], c => c
  | source :: sources, c => chainAfter sources (run source c).chain

theorem session_append (as bs : List String) (c : Chain) :
    session (as ++ bs) c = session as c ++ session bs (chainAfter as c) := by
  induction as generalizing c with
  | nil => rfl
  | cons a as ih =>
    show run a c :: session (as ++ bs) (run a c).chain = _
    rw [ih]
    rfl

theorem exists_of_mem_session {sources : List String} {c : Chain} {r : Run}
    (h : r ∈ session sources c) : ∃ source c', r = run source c' := by
  induction sources generalizing c with
  | nil => exact absurd h List.not_mem_nil
  | cons source sources ih =>
    rcases List.mem_cons.1 h with rfl | hrest
    · exact ⟨source, c, rfl⟩
    · exact ih hrest

theorem chainAfter_append (as bs : List String) (c : Chain) :
    chainAfter (as ++ bs) c = chainAfter bs (chainAfter as c) := by
  induction as generalizing c with
  | nil => rfl
  | cons a as ih => exact ih (run a c).chain

theorem length_session (sources : List String) (c : Chain) :
    (session sources c).length = sources.length := by
  induction sources generalizing c with
  | nil => rfl
  | cons source sources ih =>
    show (session sources _).length + 1 = _
    rw [ih]
    rfl

/-! ## §2. One run. -/

theorem run_of_error {source : String} {ps : List Problem} (h : (compile source).2 = .error ps)
    (c : Chain) :
    run source c = ⟨(compile source).1 ++ reportAll ps, .ok ⟨.rejected, ps⟩, c⟩ := by
  unfold run
  generalize compile source = r at h
  obtain ⟨es, result⟩ := r
  obtain rfl : result = .error ps := h
  rfl

theorem run_of_ok {source : String} {p : List Stmt} (h : (compile source).2 = .ok p)
    (c : Chain) :
    run source c
      = { runProgram p c with events := (compile source).1 ++ (runProgram p c).events } := by
  unfold run
  generalize compile source = r at h
  obtain ⟨es, result⟩ := r
  obtain rfl : result = .ok p := h
  rfl

/-- The outcome of a program that ends in a failure or without one. -/
def outcomeOf : Except Failure Unit → Except Misuse Outcome
  | .ok () => .ok ⟨.finished, []⟩
  | .error (.error e) => .ok ⟨.failed, [.evaluate e]⟩
  | .error (.misuse m) => .error m

theorem outcome_runProgram (p : List Stmt) (c : Chain) :
    (runProgram p c).outcome = outcomeOf (execute p c).result := by
  unfold runProgram
  dsimp only
  split
  · next h => rw [h, outcomeOf]
  · next h => rw [h, outcomeOf]
  · next h => rw [h, outcomeOf]

theorem chain_runProgram (p : List Stmt) (c : Chain) :
    (runProgram p c).chain = (execute p c).chain := by
  unfold runProgram
  dsimp only
  split <;> rfl

/-! ## §3. What a run prints. -/

/-- Compiling only makes notices. -/
theorem signals_compile (serves : Sink → Bool) (source : String) :
    signals serves (compile source).1 = [] := by
  unfold compile
  split
  · rfl
  · dsimp only
    split
    · next es _ =>
      show signals serves (es.map (Event.notice ∘ Notice.recovering)) = []
      unfold signals
      rw [List.filterMap_map, List.filterMap_eq_nil_iff]
      exact fun _ _ => rfl
    · rfl

/-- Reports are a line each, and a flush, for the sink of the reports. -/
theorem signals_reportAll (serves : Sink → Bool) (ps : List Problem) :
    signals serves (reportAll ps)
      = if serves .reports then ps.map (fun p => .write (p.report ++ "\n")) ++ [.flush]
        else [] := by
  unfold reportAll
  rw [signals_append]
  have hlines : signals serves (ps.flatMap fun p =>
      [.notice (.reporting p), .signal .reports (.write (p.report ++ "\n"))])
      = if serves .reports then ps.map (fun p => .write (p.report ++ "\n")) else [] := by
    induction ps with
    | nil => simp [signals]
    | cons p ps ih =>
      rw [List.flatMap_cons, signals_append, ih]
      cases hserves : serves .reports <;> simp [signals, hserves]
  rw [hlines]
  cases hserves : serves .reports <;> simp [signals, hserves]

/-- Reports do not go where a program prints. -/
theorem signalsOf_reportAll (ps : List Problem) : signalsOf .program (reportAll ps) = [] := by
  rw [signalsOf, signals_reportAll]
  rfl

/-- A run prints what its statements print. -/
theorem signalsOf_runProgram (p : List Stmt) (c : Chain) :
    signalsOf .program (runProgram p c).events = signalsOf .program (execute p c).events := by
  unfold runProgram
  dsimp only
  split
  · rfl
  · next e _ =>
    show signalsOf .program (_ :: (execute p c).events ++ reportAll [.evaluate e]) = _
    rw [signalsOf, signals_append]
    have hreport : signals (· = .program) (reportAll [.evaluate e]) = [] :=
      signalsOf_reportAll [.evaluate e]
    rw [hreport, List.append_nil]
    rfl
  · rfl

/-! ## §4. Rejected texts. -/

/-- The text cannot be cut into tokens, or the tokens are no program. -/
def IsMalformed (source : String) : Prop :=
  (∃ e, tokensOf source = .error e)
    ∨ ∃ tokens es, tokensOf source = .ok tokens ∧ programOf tokens = .error es

theorem isMalformed_iff (source : String) :
    IsMalformed source ↔ ∃ ps, (compile source).2 = .error ps := by
  unfold IsMalformed compile
  cases tokensOf source with
  | error e => simp
  | ok tokens =>
    dsimp only
    cases hprogram : programOf tokens with
    | error es => simp [hprogram]
    | ok p => simp [hprogram]

theorem isMalformed_iff_isOk (source : String) :
    IsMalformed source ↔ (compile source).2.isOk = false := by
  rw [isMalformed_iff]
  cases (compile source).2 with
  | error ps => exact iff_of_true ⟨ps, rfl⟩ rfl
  | ok p => exact iff_of_false (fun ⟨_, h⟩ => nomatch h) (by simp [Except.isOk, Except.toBool])

/-- A run that was rejected and left everything as it was. -/
structure Run.IsIdle (r : Run) (c : Chain) : Prop where
  status : r.status? = some .rejected
  silent : signalsOf .program r.events = []
  chain : r.chain = c

theorem isIdle_run {source : String} (h : IsMalformed source) (c : Chain) :
    (run source c).IsIdle c := by
  obtain ⟨ps, hps⟩ := (isMalformed_iff source).1 h
  rw [run_of_error hps]
  refine ⟨rfl, ?_, rfl⟩
  show signals (· = .program) (_ ++ _) = []
  rw [signals_append, signals_compile]
  exact signalsOf_reportAll ps

/-- A program finishes, fails, or has no outcome, but it is not rejected. -/
theorem isMalformed_of_status? {source : String} {c : Chain}
    (h : (run source c).status? = some .rejected) : IsMalformed source := by
  rw [isMalformed_iff]
  cases hcompile : (compile source).2 with
  | error ps => exact ⟨ps, rfl⟩
  | ok p =>
    rw [run_of_ok hcompile, Run.status?, outcome_runProgram] at h
    cases hresult : (execute p c).result with
    | ok u =>
      rw [hresult] at h
      cases h
    | error f =>
      rw [hresult] at h
      cases f <;> cases h

/-- The texts of a session that are not rejected, each with its run. -/
def kept (sources : List String) (c : Chain) : List (String × Run) :=
  (sources.zip (session sources c)).filter fun x => x.2.status? ≠ some .rejected

theorem kept_cons (source : String) (sources : List String) (c : Chain) :
    kept (source :: sources) c
      = if (run source c).status? ≠ some .rejected
        then (source, run source c) :: kept sources (run source c).chain
        else kept sources (run source c).chain := by
  rw [kept, session, List.zip_cons_cons, List.filter_cons]
  simp only [decide_eq_true_eq]
  rfl

/-- **Sessions** go on as if their rejected texts had not been there. -/
theorem session_kept (sources : List String) (c : Chain) :
    session ((kept sources c).map Prod.fst) c = (kept sources c).map Prod.snd
      ∧ chainAfter ((kept sources c).map Prod.fst) c = chainAfter sources c := by
  induction sources generalizing c with
  | nil => exact ⟨rfl, rfl⟩
  | cons source sources ih =>
    rw [kept_cons]
    by_cases hr : (run source c).status? = some .rejected
    · -- the next text is run in the same scopes
      have hidle := isIdle_run (isMalformed_of_status? hr) c
      rw [if_neg fun h => h hr, hidle.chain, chainAfter, hidle.chain]
      exact ih c
    · rw [if_pos hr, List.map_cons, List.map_cons, session, chainAfter, chainAfter]
      obtain ⟨hsession, hchain⟩ := ih (run source c).chain
      exact ⟨by rw [hsession], hchain⟩

/-- **A REJECTED TEXT RUNS NOTHING.**  It prints nothing and changes no scope,
and the other texts of a session run and end in the same scopes without it. -/
theorem isIdle_and_session_kept :
    (∀ source c, IsMalformed source → (run source c).IsIdle c)
      ∧ ∀ sources c, session ((kept sources c).map Prod.fst) c = (kept sources c).map Prod.snd
          ∧ chainAfter ((kept sources c).map Prod.fst) c = chainAfter sources c :=
  ⟨fun _ c h => isIdle_run h c, session_kept⟩

/-- A text that would assign before its error, and one that prints. -/
theorem isIdle_and_session_kept_first :
    IsMalformed "a = nil; print ;"
      ∧ (run "a = nil; print ;" (Chain.empty.define "a" .nil)).IsIdle
          (Chain.empty.define "a" .nil)
      ∧ session ["print a;"] (Chain.empty.define "a" .nil)
          = (kept ["a = nil; print ;", "print a;"] (Chain.empty.define "a" .nil)).map
              Prod.snd
      ∧ chainAfter ["print a;"] (Chain.empty.define "a" .nil)
          = chainAfter ["a = nil; print ;", "print a;"] (Chain.empty.define "a" .nil) := by
  have hmalformed : IsMalformed "a = nil; print ;" := by
    rw [isMalformed_iff_isOk]
    cbv
  have hidle := isIdle_and_session_kept.1 _ (Chain.empty.define "a" .nil) hmalformed
  have hkept : (kept ["a = nil; print ;", "print a;"] (Chain.empty.define "a" .nil)).map
      Prod.fst = ["print a;"] := by
    have hprinted : (run "print a;" (Chain.empty.define "a" .nil)).status? = some .finished := by
      cbv
    rw [kept_cons, if_neg fun h => h hidle.status, hidle.chain, kept_cons,
      if_pos (by rw [hprinted]; decide)]
    rfl
  have hsession := isIdle_and_session_kept.2 ["a = nil; print ;", "print a;"]
    (Chain.empty.define "a" .nil)
  rw [hkept] at hsession
  exact ⟨hmalformed, hidle, hsession⟩
end LoxScript
