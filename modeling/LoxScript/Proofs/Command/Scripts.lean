/-
  LoxScript.Proofs.Command.Scripts
  ────────────────────────────────
  The two commands that take a script agree about it.

  Both decode the script and compile its text, but each says on its own what
  is wrong.  They say the same:

                        ast                         run
      undecodable       65, the bad byte            65, the bad byte
      malformed         65, all problems            65, all problems
      a program         0, its printed form         0 or 70, its output

  Without options no notice is shown, so what a process writes are the signals
  of its events (`ofEvents_zero`), and those of a run are known
  (`signals_run`).
-/
import LoxScript.Proofs.Command.Arguments
import LoxScript.Proofs.Display.Program
import LoxScript.Proofs.Run.Streams

namespace LoxScript

/-! ## §1. Written lines. -/

theorem written_lines (ls : List String) :
    written (ls.map fun l => .write (l ++ "\n")) = asLines ls := by
  unfold written asLines
  rw [List.map_map]
  rfl

theorem written_reportSignals (ps : List Problem) :
    written (reportSignals ps) = asLines (ps.map Problem.report) := by
  cases ps with
  | nil => rfl
  | cons p ps =>
    show written (((p :: ps).map fun p => .write (p.report ++ "\n")) ++ [.flush]) = _
    rw [written_append, ← written_lines, List.map_map]
    exact String.append_empty

theorem signals_lines (serves : Sink → Bool) (sink : Sink) (ls : List String) :
    signals serves (ls.map fun l => .signal sink (.write (l ++ "\n")))
      = if serves sink then ls.map fun l => .write (l ++ "\n") else [] := by
  induction ls with
  | nil => simp [signals]
  | cons l ls ih =>
    rw [List.map_cons, ← List.singleton_append, signals_append, ih]
    cases hserves : serves sink <;> simp [signals, hserves]

/-- The setup of a command: a fresh interpreter, and a stream for each sink. -/
def console : Setup Sink := ⟨.program, none, some .reports⟩

theorem streams_console (source : String) (sink : Sink) :
    (console.perform source).streams sink
      = signalsOf sink (run source Chain.empty).events := by
  have hserves : (fun s => decide (console.streamOf s = sink)) = (fun s => decide (s = sink)) := by
    funext s
    cases s <;> rfl
  unfold Setup.perform
  dsimp only
  rw [foldl_deliver, List.nil_append, hserves]
  rfl

namespace Command

/-! ## §2. Text of events. -/

/-- Text that is put together event by event. -/
theorem join_eq_written {text : Event → String} {sink : Sink}
    (h : ∀ e, text e = written (signalsOf sink [e])) (es : List Event) :
    String.join (es.map text) = written (signalsOf sink es) := by
  induction es with
  | nil => rfl
  | cons e es ih =>
    have hsignals : signalsOf sink (e :: es) = signalsOf sink [e] ++ signalsOf sink es :=
      signals_append _ [e] es
    rw [List.map_cons, String.join_cons, ih, hsignals, written_append, h]

theorem stdoutText_eq (e : Event) : stdoutText e = written (signalsOf .program [e]) := by
  cases e with
  | notice n => rfl
  | signal sink s =>
    cases sink <;> cases s <;> simp [stdoutText, signalsOf, signals, written]

/-- Without options no notice is shown. -/
theorem stderrText_zero_eq (e : Event) : stderrText 0 e = written (signalsOf .reports [e]) := by
  cases e with
  | notice n =>
    have hshows : shows 0 n = false := by
      unfold shows
      cases n.level <;> rfl
    show (if shows 0 n then _ else "") = ""
    rw [hshows]
    rfl
  | signal sink s =>
    cases sink <;> cases s <;> simp [stderrText, signalsOf, signals, written]

/-- **A process without options** writes the signals of its events. -/
theorem ofEvents_zero (exitCode : Nat) (es : List Event) :
    Transcript.ofEvents 0 exitCode es
      = ⟨exitCode, written (signalsOf .program es), written (signalsOf .reports es)⟩ := by
  unfold Transcript.ofEvents
  rw [join_eq_written stdoutText_eq, join_eq_written stderrText_zero_eq]

/-! ## §3. Texts of scripts. -/

variable {source : String}

/-- What is wrong with a text, on standard error. -/
def rejection (ps : List Problem) : Transcript :=
  ⟨Status.rejected.exitCode, "", asLines (ps.map Problem.report)⟩

theorem printScript_of_error {ps : List Problem} (h : (compile source).2 = .error ps) :
    printScript 0 source = rejection ps := by
  have hpair : compile source = ((compile source).1, .error ps) := Prod.ext rfl h
  unfold printScript
  rw [hpair]
  dsimp only
  have hlines : (ps.map fun p => Event.signal .reports (.write (p.report ++ "\n")))
      = (ps.map Problem.report).map fun l => .signal .reports (.write (l ++ "\n")) := by
    rw [List.map_map]
    rfl
  rw [ofEvents_zero, hlines]
  simp only [signalsOf, signals_append, signals_compile, signals_lines, List.nil_append]
  rw [if_neg (by decide), if_pos (by decide), written_lines]
  rfl

theorem printScript_of_ok {p : List Stmt} {ls : List String} (h : (compile source).2 = .ok p)
    (hls : displayAll p = .ok ls) : printScript 0 source = ⟨0, asLines ls, ""⟩ := by
  have hpair : compile source = ((compile source).1, .ok p) := Prod.ext rfl h
  unfold printScript
  rw [hpair]
  dsimp only
  rw [hls]
  dsimp only
  rw [ofEvents_zero]
  simp only [signalsOf, signals_append, signals_compile, signals_lines, List.nil_append]
  rw [if_pos (by decide), if_neg (by decide), written_lines]
  rfl

theorem runScript_of_error {ps : List Problem} (h : (compile source).2 = .error ps) :
    runScript 0 source = rejection ps := by
  unfold runScript
  rw [run_of_error h]
  dsimp only
  rw [ofEvents_zero]
  simp only [signalsOf, signals_append, signals_compile,
    signals_reportAll_of_ne_nil _ (ne_nil_of_compile h), List.nil_append]
  rw [if_neg (by decide), if_pos (by decide), written_reportSignals]
  rfl

theorem runScript_of_ok {p : List Stmt} (h : (compile source).2 = .ok p) :
    ∃ exitCode, (exitCode = 0 ∨ exitCode = 70)
      ∧ runScript 0 source
          = ⟨exitCode, written ((console.perform source).streams .program),
              written ((console.perform source).streams .reports)⟩ := by
  obtain ⟨o, ho⟩ := (safe_run source Chain.holdsLanguage_empty).outcome
  refine ⟨o.status.exitCode, ?_, ?_⟩
  · have hstatus : (run source Chain.empty).status? = some o.status := by
      rw [Run.status?, ho]
    cases hcode : o.status with
    | finished => exact .inl rfl
    | failed => exact .inr rfl
    | rejected =>
      -- only a malformed text is rejected
      rw [hcode] at hstatus
      obtain ⟨ps, hps⟩ := (isMalformed_iff source).1 (isMalformed_of_status? hstatus)
      rw [h] at hps
      cases hps
  · unfold runScript
    dsimp only
    rw [ho, streams_console, streams_console]
    exact ofEvents_zero _ _

/-! ## §4. The two commands. -/

/-- How the transcripts of the two commands for one script go together. -/
structure Transcript.Agree (bytes : List UInt8) (ast run : Transcript) : Prop where
  exitCode_iff : ast.exitCode = 65 ↔ run.exitCode = 65
  rejected : ast.exitCode = 65 → ast.stderr = run.stderr ∧ ast.stdout = "" ∧ run.stdout = ""
  accepted : ast.exitCode ≠ 65 → ∃ source p ls, decodeScript bytes = .ok source
    ∧ (compile source).2 = .ok p ∧ displayAll p = .ok ls
    ∧ ast = ⟨0, String.join (ls.map (· ++ "\n")), ""⟩
    ∧ (run.exitCode = 0 ∨ run.exitCode = 70)
    ∧ run.stdout = written ((console.perform source).streams .program)
    ∧ run.stderr = written ((console.perform source).streams .reports)

theorem agree_rejection (bytes : List UInt8) (stderr : String) :
    Transcript.Agree bytes ⟨65, "", stderr⟩ ⟨65, "", stderr⟩ :=
  ⟨Iff.rfl, fun _ => ⟨rfl, rfl, rfl⟩, fun h => absurd rfl h⟩

/-- The commands agree about the text of a script. -/
theorem agree_of_decodeScript {bytes : List UInt8} (h : decodeScript bytes = .ok source) :
    Transcript.Agree bytes (printScript 0 source) (runScript 0 source) := by
  cases hcompile : (compile source).2 with
  | error ps =>
    rw [printScript_of_error hcompile, runScript_of_error hcompile]
    exact agree_rejection bytes _
  | ok p =>
    obtain ⟨ls, hls, -⟩ := exists_printsAll_of_compile hcompile
    obtain ⟨exitCode, hcode, hrun⟩ := runScript_of_ok hcompile
    rw [printScript_of_ok hcompile hls, hrun]
    have hzero : 0 ≠ 65 := by decide
    have hne : exitCode ≠ 65 := by
      rcases hcode with rfl | rfl <;> decide
    exact ⟨iff_of_false hzero hne, fun h => absurd h hzero,
      fun _ => ⟨source, p, ls, h, hcompile, hls, rfl, hcode, rfl, rfl⟩⟩

/-- **THE TWO COMMANDS AGREE ON EVERY SCRIPT.**  Whatever bytes a script has,
both reject it with the same words and print nothing, or neither does: then
one prints the program and the other what the program prints.  A command line
that names the script asks for them. -/
theorem perform_ast_agrees_run (path : String) :
    (∀ bytes input, Transcript.Agree bytes
        (Invocation.perform ⟨0, .ast path⟩ (.file bytes) input)
        (Invocation.perform ⟨0, .run (some path)⟩ (.file bytes) input))
      ∧ (isOption path = false →
        AskFor ["ast", path] ⟨0, .ast path⟩ ∧ AskFor ["run", path] ⟨0, .run (some path)⟩) := by
  refine ⟨fun bytes input => ?_, fun hpath => ⟨askFor_ast hpath, askFor_run hpath⟩⟩
  show Transcript.Agree bytes (withScript path (.file bytes) (printScript 0))
    (withScript path (.file bytes) (runScript 0))
  unfold withScript
  dsimp only
  cases hdecode : decodeScript bytes with
  | error offset => exact agree_rejection bytes _
  | ok source => exact agree_of_decodeScript hdecode

/-- A script with an error in each line. -/
def twoErrors : List UInt8 := "x y;\nprint;\n".toUTF8.toList

theorem perform_ast_agrees_run_twoErrors :
    isOption "script.lox" = false
      ∧ Transcript.Agree twoErrors (perform ["ast", "script.lox"] (fun _ => .file twoErrors) "")
          (perform ["run", "script.lox"] (fun _ => .file twoErrors) "")
      ∧ perform ["run", "script.lox"] (fun _ => .file twoErrors) ""
          = rejection [.parse ⟨.unclosedExpression, 1⟩, .parse ⟨.strayToken ";", 2⟩] := by
  have hpath : isOption "script.lox" = false := by decide
  have hdecode : decodeScript twoErrors = .ok "x y;\nprint;\n" := by cbv
  have hcompile : (compile "x y;\nprint;\n").2
      = .error [.parse ⟨.unclosedExpression, 1⟩, .parse ⟨.strayToken ";", 2⟩] := by cbv
  obtain ⟨hagree, hask⟩ := perform_ast_agrees_run "script.lox"
  obtain ⟨hast, hrun⟩ := hask hpath
  rw [hast, hrun]
  refine ⟨hpath, hagree twoErrors (delivered ""), ?_⟩
  show withScript "script.lox" (.file twoErrors) (runScript 0) = _
  unfold withScript
  dsimp only
  rw [hdecode]
  exact runScript_of_error hcompile

end Command
end LoxScript
