/-
  LoxScript.Proofs.Run.Streams
  ────────────────────────────────
  One stream, two or three.

  A run is called with a stream for its output, and if the caller wants it
  so, with an interpreter that prints to a stream of its own and with another
  stream for the reports.  What is left out is taken from the output:

                               program         reports
      output alone             output          output
      and for errors           output          errors
      and an interpreter       its own         output

  The run itself is the same each time.  So two streams hold what one stream
  holds, cut in two at one place: the lines of the print statements, and then
  the reports (`streams_withErrors`).
-/
import LoxScript.Proofs.Display.Literal
import LoxScript.Proofs.Run.Safety
import LoxScript.Proofs.Run.Signals

namespace LoxScript

variable {σ : Type}

/-! ## §1. Streams. -/

/-- An interpreter that is there before a run: where it prints, and its scopes. -/
structure Interpreter (σ : Type) where
  output : σ
  chain : Chain

/-- What a run is called with, besides its text. -/
structure Setup (σ : Type) where
  output : σ
  interpreter? : Option (Interpreter σ)
  errorOutput? : Option σ

namespace Setup

/-- The interpreter of a run; a fresh one prints to the output. -/
def interpreter (x : Setup σ) : Interpreter σ := x.interpreter?.getD ⟨x.output, Chain.empty⟩

/-- The stream that serves a sink. -/
def streamOf (x : Setup σ) : Sink → σ
  | .program => x.interpreter.output
  | .reports => x.errorOutput?.getD x.output

/-- The same with a stream for the reports. -/
def withErrors (x : Setup σ) (e : σ) : Setup σ := { x with errorOutput? := some e }

/-- The same with an interpreter, in the same scopes, that has its own stream. -/
def withOwn (x : Setup σ) (w : σ) : Setup σ :=
  { x with interpreter? := some ⟨w, x.interpreter.chain⟩ }

end Setup

/-- An event gets to the stream that serves its sink. -/
def deliver [DecidableEq σ] (streamOf : Sink → σ) (streams : σ → List Signal) :
    Event → σ → List Signal
  | .signal sink s => Function.update streams (streamOf sink) (streams (streamOf sink) ++ [s])
  | .notice _ => streams

/-- What a caller has after a run: all streams, the result, and the scopes of
the interpreter. -/
structure Observed (σ : Type) where
  streams : σ → List Signal
  outcome : Except Misuse Outcome
  chain : Chain

/-- Runs a source text on new streams. -/
def Setup.perform [DecidableEq σ] (x : Setup σ) (source : String) : Observed σ :=
  let r := run source x.interpreter.chain
  ⟨r.events.foldl (deliver x.streamOf) fun _ => [], r.outcome, r.chain⟩

/-- One event. -/
theorem deliver_eq [DecidableEq σ] (streamOf : Sink → σ) (streams : σ → List Signal) (e : Event)
    (stream : σ) :
    deliver streamOf streams e stream
      = streams stream ++ signals (fun sink => streamOf sink = stream) [e] := by
  cases e with
  | notice n => exact (List.append_nil _).symm
  | signal sink s =>
    by_cases h : streamOf sink = stream
    · subst h
      simp [deliver, signals]
    · simp [deliver, signals, h, Function.update_of_ne (Ne.symm h)]

/-- **All events.**  A stream ends up with the signals of the sinks that it
serves, in the order of the run. -/
theorem foldl_deliver [DecidableEq σ] (streamOf : Sink → σ) (streams : σ → List Signal)
    (es : List Event) (stream : σ) :
    es.foldl (deliver streamOf) streams stream
      = streams stream ++ signals (fun sink => streamOf sink = stream) es := by
  induction es generalizing streams with
  | nil => exact (List.append_nil _).symm
  | cons e es ih =>
    rw [List.foldl_cons, ih, deliver_eq, List.append_assoc, ← signals_append]
    rfl

/-! ## §2. Output and reports. -/

/-- No display form looks like a report, which begins with a bracket. -/
theorem Value.display_ne_report {v : Value} {text : String} (h : v.display = .ok text)
    (p : Problem) : text ≠ p.report := by
  have hreport : p.report.toList = '[' :: p.report.toList.tail := by
    simp [Problem.report]
  rintro rfl
  cases v with
  | nil =>
    rw [← Except.ok.inj h] at hreport
    exact absurd hreport (by decide)
  | truth b =>
    cases b <;>
      (rw [← Except.ok.inj h] at hreport
       exact absurd hreport (by decide))
  | number x =>
    have hmem : '[' ∈ (Decimal.displayNumber x).toList := by
      rw [Except.ok.inj h, hreport]
      exact List.mem_cons_self
    exact absurd (mem_displayNumber hmem) (by decide)
  | text s =>
    rw [← Except.ok.inj h, Text.toList_displayForm] at hreport
    exact absurd (List.cons.inj hreport).1 (by decide)
  | name id =>
    rw [← Except.ok.inj h] at hreport
    simp at hreport
  | integer n => cases h

theorem Displays.ne_report {xs : List Printing} {texts : List String} (h : Displays xs texts) :
    ∀ text ∈ texts, ∀ p : Problem, text ≠ p.report := by
  obtain ⟨vs, -, htexts⟩ := h
  induction htexts with
  | nil => simp
  | cons hfirst _ ih => exact List.forall_mem_cons.2 ⟨Value.display_ne_report hfirst, ih⟩

/-- Lines of such texts hold no report. -/
theorem not_mem_flatMap_lineSignals {texts : List String} {p : Problem}
    (h : ∀ text ∈ texts, text ≠ p.report) :
    .write (p.report ++ "\n") ∉ texts.flatMap lineSignals := by
  intro hmem
  obtain ⟨text, htext, hline⟩ := List.mem_flatMap.1 hmem
  rcases List.mem_cons.1 hline with hwrite | hflush
  · exact h text htext ((String.append_left_inj "\n").1 (Signal.write.inj hwrite)).symm
  · cases List.mem_singleton.1 hflush

theorem reportSignals_eq_nil_iff (ps : List Problem) : reportSignals ps = [] ↔ ps = [] := by
  cases ps <;> simp [reportSignals]

/-- A run that finishes has no problems, and no other. -/
theorem problems_run_eq_nil_iff {source : String} {c : Chain} {o : Outcome}
    (h : (run source c).outcome = .ok o) :
    (run source c).problems = [] ↔ o.status = .finished := by
  unfold Run.problems
  rw [h]
  cases hcompile : (compile source).2 with
  | error ps =>
    rw [run_of_error hcompile] at h
    obtain rfl := Except.ok.inj h
    exact iff_of_false (ne_nil_of_compile hcompile) nofun
  | ok p =>
    rw [run_of_ok hcompile] at h
    have houtcome := (outcome_runProgram p c).symm.trans h
    cases hresult : (execute p c).result with
    | ok u =>
      rw [hresult] at houtcome
      obtain rfl := Except.ok.inj houtcome
      exact iff_of_true rfl rfl
    | error f =>
      rw [hresult] at houtcome
      cases f with
      | error e =>
        obtain rfl := Except.ok.inj houtcome
        exact iff_of_false (List.cons_ne_nil _ _) nofun
      | misuse m => cases houtcome

/-- What a run prints and what it reports. -/
structure IsParted (source : String) (c : Chain) (out err : List Signal) : Prop where
  /-- A line for each print statement that is executed to its end, in order. -/
  printed : ∃ texts, Displays (printingsOf source c) texts ∧ out = texts.flatMap lineSignals
  silent : ∀ p : Problem, .write (p.report ++ "\n") ∉ out
  reported : err = reportSignals (run source c).problems
  /-- Nothing is reported of a run that finishes, and something of any other. -/
  err_eq_nil_iff : ∀ o, (run source c).outcome = .ok o → (err = [] ↔ o.status = .finished)
  ends : c.HoldsLanguage → ∃ o, (run source c).outcome = .ok o

/-- **Any streams.**  What is printed gets to one of them, and behind it what
is reported to the same or to another. -/
theorem exists_isParted (source : String) (c : Chain) :
    ∃ out err, IsParted source c out err
      ∧ ∀ {σ : Type} [DecidableEq σ] (x : Setup σ), x.interpreter.chain = c →
          ∀ stream, (x.perform source).streams stream
            = (if x.streamOf .program = stream then out else [])
              ++ if x.streamOf .reports = stream then err else [] := by
  obtain ⟨texts, hdisplays, hsignals⟩ := signals_run source c
  refine ⟨texts.flatMap lineSignals, reportSignals _, ⟨⟨texts, hdisplays, rfl⟩, ?_, rfl, ?_,
    fun h => (safe_run source h).outcome⟩, ?_⟩
  · exact fun p => not_mem_flatMap_lineSignals fun text ht => hdisplays.ne_report text ht p
  · intro o ho
    rw [reportSignals_eq_nil_iff, problems_run_eq_nil_iff ho]
  · intro σ _ x hx stream
    unfold Setup.perform
    dsimp only
    rw [hx, foldl_deliver, List.nil_append, hsignals]
    simp [seenOf]

/-- What is alike whichever streams a run is called with. -/
structure Observed.EndsAs (a b : Observed σ) : Prop where
  outcome : a.outcome = b.outcome
  chain : a.chain = b.chain

/-! ## §3. Splitting. -/

/-- **SPLITTING THE STREAMS LOSES AND REORDERS NOTHING.**  Take a run that
prints and reports to one stream.  With a stream for the reports, the two hold
what the one holds, first the output and then the reports.  With an
interpreter that has its own stream, that gets the output, and the reports
stay.  The run ends alike. -/
theorem streams_withErrors [DecidableEq σ] (source : String) (x : Setup σ) {e w : σ}
    (hprogram : x.streamOf .program = x.output) (hreports : x.streamOf .reports = x.output)
    (he : x.output ≠ e) (hw : x.output ≠ w) :
    ∃ out err, IsParted source x.interpreter.chain out err
      ∧ (x.perform source).streams x.output = out ++ err
      ∧ (((x.withErrors e).perform source).streams x.output = out
        ∧ ((x.withErrors e).perform source).streams e = err
        ∧ ((x.withErrors e).perform source).EndsAs (x.perform source))
      ∧ (((x.withOwn w).perform source).streams w = out
        ∧ ((x.withOwn w).perform source).streams x.output = err
        ∧ ((x.withOwn w).perform source).EndsAs (x.perform source)) := by
  obtain ⟨out, err, hparted, hstreams⟩ := exists_isParted source x.interpreter.chain
  have hone := hstreams x rfl x.output
  have hsplit := hstreams (x.withErrors e) rfl
  have hown := hstreams (x.withOwn w) rfl
  -- who serves which sink in the second call and in the third
  have hsplitProgram : (x.withErrors e).streamOf .program = x.output := hprogram
  have hsplitReports : (x.withErrors e).streamOf .reports = e := rfl
  have hownProgram : (x.withOwn w).streamOf .program = w := rfl
  have hownReports : (x.withOwn w).streamOf .reports = x.output := hreports
  rw [hsplitProgram, hsplitReports] at hsplit
  rw [hownProgram, hownReports] at hown
  refine ⟨out, err, hparted, ?_, ⟨?_, ?_, rfl, rfl⟩, ⟨?_, ?_, rfl, rfl⟩⟩
  · rw [hone, hprogram, hreports, if_pos rfl, if_pos rfl]
  · rw [hsplit, if_pos rfl, if_neg he.symm, List.append_nil]
  · rw [hsplit, if_neg he, if_pos rfl, List.nil_append]
  · rw [hown, if_pos rfl, if_neg hw, List.append_nil]
  · rw [hown, if_neg hw.symm, if_pos rfl, List.nil_append]

/-- A setup with one stream, which is also that of an interpreter. -/
def oneStream : Setup Nat := ⟨0, some ⟨0, nestedScopes⟩, none⟩

/-- One line is printed before a statement fails. -/
theorem streams_withErrors_oneStream :
    oneStream.streamOf .program = oneStream.output
      ∧ oneStream.streamOf .reports = oneStream.output
      ∧ ∃ out err, IsParted "print a; print -c;" nestedScopes out err
        ∧ out = [.write "\"b\"\n", .flush]
        ∧ err = [.write "[line 1] Error: operand must be a number\n", .flush]
        ∧ (oneStream.perform "print a; print -c;").streams 0 = out ++ err
        ∧ ((oneStream.withErrors 1).perform "print a; print -c;").streams 0 = out
        ∧ ((oneStream.withOwn 2).perform "print a; print -c;").streams 0 = err := by
  obtain ⟨out, err, hparted, hone, ⟨hout, herr, -⟩, -, hreports, -⟩ :=
    streams_withErrors "print a; print -c;" oneStream (e := 1) (w := 2) rfl rfl (by decide)
      (by decide)
  refine ⟨rfl, rfl, out, err, hparted, hout.symm.trans ?_, herr.symm.trans ?_, hone, hout,
    hreports⟩
  · cbv
  · cbv

end LoxScript
