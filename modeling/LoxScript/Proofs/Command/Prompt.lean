/-
  LoxScript.Proofs.Command.Prompt
  ────────────────────────────────
  A prompt is a session of its lines.

  The text that standard input delivers is cut behind every LF
  (`Text.SplitsInto`), and a CR is a character like others.  Each line is run in the scopes that the lines before it leave behind, and
  what the process writes is what these runs write, line by line:

      stdout     > ‹printed by line 1› > ‹printed by line 2› … > ⏎
      stderr       ‹reports of line 1›   ‹reports of line 2› …

  No line ends the prompt, whatever is wrong with it, and none takes back
  what was defined before it (`IsStepOf`).
-/
import LoxScript.Proofs.Command.Scripts
import LoxScript.Proofs.Display.Output
import LoxScript.Proofs.Evaluation.Writes
import LoxScript.Proofs.Run.Joined

namespace LoxScript

/-! ## §1. Lines of a text. -/

namespace Text

/-- Lines that a text consists of.  Each ends with its only LF; what is left
behind the last LF is a line too, if it is not empty. -/
inductive SplitsInto : List Char → List (List Char) → Prop where
  | nil : SplitsInto [] []
  | rest {l : List Char} : l ≠ [] → '\n' ∉ l → SplitsInto l [l]
  | line {l text : List Char} {ls : List (List Char)} :
      '\n' ∉ l → SplitsInto text ls → SplitsInto (l ++ '\n' :: text) ((l ++ ['\n']) :: ls)

theorem splitsInto_splitLines (cs : List Char) : SplitsInto cs (splitLines cs) := by
  induction cs with
  | nil => exact .nil
  | cons c cs ih =>
    rw [splitLines]
    by_cases hc : c = '\n'
    · rw [if_pos hc, hc]
      exact .line (l := []) List.not_mem_nil ih
    · rw [if_neg hc]
      -- the character belongs to the first line of what follows
      have hmem {l : List Char} (hl : '\n' ∉ l) : '\n' ∉ c :: l :=
        List.not_mem_cons_of_ne_of_not_mem (Ne.symm hc) hl
      generalize splitLines cs = ls at ih
      cases ih with
      | nil => exact .rest (List.cons_ne_nil _ _) (hmem List.not_mem_nil)
      | rest _ hl => exact .rest (List.cons_ne_nil _ _) (hmem hl)
      | line hl htext => exact .line (hmem hl) htext

end Text

theorem splitsInto_linesOf (input : String) :
    Text.SplitsInto input.toList ((Prompt.linesOf input).map String.toList) := by
  have hlists : (Prompt.linesOf input).map String.toList = Text.splitLines input.toList := by
    rw [Prompt.linesOf, List.map_map]
    exact (List.map_congr_left fun l _ => String.toList_ofList).trans (List.map_id _)
  rw [hlists]
  exact Text.splitsInto_splitLines _

/-! ## §2. Steps of a session. -/

/-- What a run prints. -/
def Run.printed (r : Run) : String := written (signalsOf .program r.events)

/-- What a run reports. -/
def Run.reported (r : Run) : String := written (signalsOf .reports r.events)

theorem reported_run (source : String) (c : Chain) :
    (run source c).reported = asLines ((run source c).problems.map Problem.report) := by
  rw [Run.reported, reports_run]
  exact written_reportSignals _

/-- The run of a line in given scopes.  It has an outcome, prints the values
of its print statements, reports its problems, and keeps what is defined:
before the line, and by the statements of the line that did not fail. -/
structure Run.IsStepOf (source : String) (c : Chain) (r : Run) : Prop where
  run : r = LoxScript.run source c
  outcome : ∃ o, r.outcome = .ok o
  printed : ∃ texts, Displays (printingsOf source c) texts ∧ r.printed = asLines texts
  reported : r.reported = asLines (r.problems.map Problem.report)
  rejected : IsMalformed source → r.chain = c
  keeps : c.Keeps r.chain
  keepsMade : ∀ p q, (compile source).2 = .ok (p ++ q) → (execute p c).result = .ok () →
    (execute p c).chain.Keeps r.chain

theorem isStepOf_run (source : String) {c : Chain} (h : c.HoldsLanguage) :
    (run source c).IsStepOf source c := by
  refine ⟨rfl, (safe_run source h).outcome, exists_displays source c, reported_run source c,
    fun hmalformed => (isIdle_run hmalformed c).chain, (leads_run source c).keeps, ?_⟩
  intro p q hcompile hresult
  rw [run_of_ok hcompile]
  show (execute p c).chain.Keeps (runProgram (p ++ q) c).chain
  rw [chain_runProgram, execute_append hresult]
  exact (leads_execute q _).keeps

theorem holdsLanguage_chainAfter (sources : List String) {c : Chain} (h : c.HoldsLanguage) :
    (chainAfter sources c).HoldsLanguage := by
  induction sources generalizing c with
  | nil => exact h
  | cons source sources ih => exact ih (safe_run source h).chain

theorem session_split (before : List String) (source : String) (after : List String) (c : Chain) :
    (session (before ++ source :: after) c)[before.length]?
      = some (run source (chainAfter before c)) := by
  rw [session_append, List.getElem?_append_right (length_session before c).le, length_session,
    Nat.sub_self]
  rfl

/-! ## §3. What a prompt writes. -/

namespace Prompt

/-- What is noticed of a line that does not end well is not written. -/
theorem signals_answer (serves : Sink → Bool) (line : String) (c : Chain) :
    signals serves (answer line c).1 = signals serves (run line c).events := by
  rw [answer]
  show signals serves (_ ++ _) = _
  rw [signals_append]
  have hnotes : ∀ ns : List Notice, signals serves (ns.map .notice) = [] := signals_notices serves
  cases (run line c).outcome with
  | error m => exact List.append_nil _
  | ok o =>
    dsimp only
    split
    · exact List.append_nil _
    · rw [show signals serves [Event.notice _] = [] from hnotes [_], List.append_nil]

/-- A prompt asks for each line and runs it, and asks once more at the end. -/
theorem signals_transcript (serves : Sink → Bool) (lines : List String) (c : Chain) :
    signals serves (transcript lines c)
      = ((session lines c).flatMap fun r => signals serves [ask] ++ signals serves r.events)
        ++ signals serves [ask, goodbye] := by
  induction lines generalizing c with
  | nil => rfl
  | cons line lines ih =>
    show signals serves ([ask] ++ (answer line c).1 ++ transcript lines (run line c).chain) = _
    rw [signals_append, signals_append, signals_answer, ih, session, List.flatMap_cons]
    exact (List.append_assoc _ _ _).symm

/-- A prompt before each line and one before the end of the input. -/
theorem written_transcript (lines : List String) (c : Chain) :
    written (signalsOf .program (transcript lines c))
      = String.join ((session lines c).map fun r => mark ++ r.printed) ++ mark ++ "\n" := by
  rw [signalsOf, signals_transcript, written_append, written_flatMap, String.append_assoc]
  simp only [written_append]
  rfl

/-- The problems of all lines are reported, and nothing else. -/
theorem reports_transcript (lines : List String) (c : Chain) :
    signalsOf .reports (transcript lines c)
      = (session lines c).flatMap fun r => signalsOf .reports r.events := by
  rw [signalsOf, signals_transcript]
  exact List.append_nil _

theorem reported_transcript (lines : List String) (c : Chain) :
    written (signalsOf .reports (transcript lines c))
      = String.join ((session lines c).map Run.reported) := by
  rw [reports_transcript, written_flatMap]
  rfl

end Prompt

/-! ## §4. The command. -/

namespace Command

/-- The process of a prompt, as the runs of its lines make it up. -/
structure Transcript.Folds (verbosity : Nat) (lines : List String) (rs : List Run)
    (t : Transcript) : Prop where
  exitCode : t.exitCode = 0
  stdout : t.stdout = String.join (rs.map fun r => "> " ++ r.printed) ++ "> \n"
  stderr : verbosity = 0 → t.stderr = String.join (rs.map Run.reported)
  /-- Every line is a step, in the scopes behind the lines before it. -/
  length : rs.length = lines.length
  step : ∀ before line after, lines = before ++ line :: after →
    ∃ r, rs[before.length]? = some r ∧ r.IsStepOf line (chainAfter before Chain.empty)
  /-- What some lines have defined is still defined behind all further lines. -/
  keeps : ∀ before after, lines = before ++ after →
    (chainAfter before Chain.empty).Keeps (chainAfter lines Chain.empty)

/-- What is observed of a prompt that gets these lines. -/
theorem folds_transcript (verbosity : Nat) (lines : List String) :
    (Transcript.ofEvents verbosity 0 (Prompt.transcript lines Chain.empty)).Folds verbosity lines
      (session lines Chain.empty) := by
  refine ⟨rfl, ?_, ?_, length_session lines Chain.empty, ?_, ?_⟩
  · show String.join (List.map stdoutText _) = _
    rw [join_eq_written stdoutText_eq, Prompt.written_transcript, String.append_assoc]
    rfl
  · intro hzero
    rw [hzero, ofEvents_zero]
    exact Prompt.reported_transcript lines Chain.empty
  · intro before line after hlines
    rw [hlines]
    have hlanguage := holdsLanguage_chainAfter before Chain.holdsLanguage_empty
    exact ⟨_, session_split before line after Chain.empty, isStepOf_run line hlanguage⟩
  · intro before after hlines
    rw [hlines, chainAfter_append]
    exact (leads_chainAfter after _).keeps

/-- **THE PROMPT IS THE SESSION OF ITS LINES.**  Whatever text standard input
delivers, the process ends well, and it writes what the runs of the lines
write, a prompt before each of them.  A command line without a script asks
for it. -/
theorem perform_prompt_folds (verbosity : Nat) :
    (∀ entry input, ∃ lines, Text.SplitsInto input.toList (lines.map String.toList)
        ∧ (Invocation.perform ⟨verbosity, .run none⟩ entry input).Folds verbosity lines
            (session lines Chain.empty))
      ∧ AskFor (promptArguments verbosity) ⟨verbosity, .run none⟩ :=
  ⟨fun _ input => ⟨Prompt.linesOf input, splitsInto_linesOf input, folds_transcript verbosity _⟩,
    askFor_prompt verbosity⟩

end Command
end LoxScript
