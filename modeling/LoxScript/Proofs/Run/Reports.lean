/-
  LoxScript.Proofs.Run.Reports
  ────────────────────────────────
  How a run ends, and that its status, its problems and its reports agree.

      finished      no problem
      rejected      one problem of the scanner, or all of the reader
      failed        one problem, at a token of the text

  Each problem has a line of the text and is reported in one line.  The second
  is in danger where a report quotes the text: strings may hold line breaks.
  But a character is quoted in its debug form, and a token is quoted only
  where it is no literal: a literal fits wherever an operand is due
  (`isAbout_of_mem_syntaxErrors`), and evaluation fails at operators and names
  (`IsProgram.isPointOf`).
-/
import LoxScript.Proofs.Evaluation.Errors
import LoxScript.Proofs.Run.Relaid
import LoxScript.Proofs.Run.Safety
import LoxScript.Proofs.Run.Signals
import LoxScript.Proofs.Scan.Layout
import LoxScript.Proofs.Scan.TokenLines

namespace LoxScript

/-! ## §1. Debug forms. -/

namespace Text

theorem not_mem_toDigits (n : Nat) : '\n' ∉ Nat.toDigits 16 n :=
  fun hmem => forall_mem_toDigits (p := (· ≠ '\n')) (by decide) n _ hmem rfl

theorem not_mem_hexPadded (width n : Nat) : '\n' ∉ hexPadded width n := by
  unfold hexPadded
  rw [List.mem_append, List.mem_replicate, not_or]
  exact ⟨fun h => absurd h.2 (by decide), not_mem_toDigits n⟩

theorem not_mem_debugChar {quote : Char} (hquote : quote ≠ '\n') (c : Char) :
    '\n' ∉ debugChar quote c := by
  unfold debugChar debugCode
  split_ifs with hself hbreak hreturn htab hprint hshort hmiddle
  · rcases hself with rfl | rfl
    · simp [hquote.symm]
    · decide
  · decide
  · decide
  · decide
  · simpa [eq_comm] using hbreak
  · simp [not_mem_hexPadded]
  · simp [not_mem_hexPadded]
  · simp [not_mem_hexPadded]

/-- A line break is escaped. -/
theorem not_mem_debugForm (s : String) : '\n' ∉ (debugForm s).toList := by
  have hquote : debugQuote s.toList ≠ '\n' := by
    unfold debugQuote
    split <;> decide
  have hbody : '\n' ∉ s.toList.flatMap (debugChar (debugQuote s.toList)) := by
    rw [List.mem_flatMap]
    rintro ⟨c, -, hc⟩
    exact not_mem_debugChar hquote c hc
  unfold debugForm
  simp [hquote.symm, hbody]

end Text

/-! ## §2. Tokens. -/

/-- A scanned token that is no literal is in one line. -/
theorem not_mem_lexeme_of_tokensOf {source : String} {tokens : List Token}
    (h : tokensOf source = .ok tokens) :
    ∀ t ∈ tokens, t.kind ∉ Kind.literals → '\n' ∉ t.lexeme.toList := by
  refine forall_mem_of_tokensOf h ?_ fun line _ => List.not_mem_nil
  intro t ht hkind
  exact ht.not_mem (ne_of_mem_of_not_mem (by decide) hkind).symm

/-! ## §3. Problems. -/

/-- A problem that has a line of the text and is reported in one line. -/
structure Problem.FitsIn (source : String) (p : Problem) : Prop where
  line : IsLineOf source.toList p.line
  report : '\n' ∉ p.report.toList

theorem not_mem_natRepr (n : Nat) : '\n' ∉ n.repr.toList := by
  rw [Nat.repr_eq_ofList_toDigits, String.toList_ofList]
  intro hmem
  exact absurd (Nat.isDigit_of_mem_toDigits (by decide) (by decide) hmem) (by decide)

theorem not_mem_intRepr (n : Int) : '\n' ∉ n.repr.toList := by
  cases n with
  | ofNat m => exact not_mem_natRepr m
  | negSucc m =>
    show '\n' ∉ ("-" ++ Nat.repr (m + 1)).toList
    rw [String.toList_append, List.mem_append, not_or]
    exact ⟨by decide, not_mem_natRepr (m + 1)⟩

/-- A report is in one line if its message is. -/
theorem Problem.not_mem_report {p : Problem} (h : '\n' ∉ p.message.toList) :
    '\n' ∉ p.report.toList := by
  unfold Problem.report
  simp [h, not_mem_intRepr]

/-- Evaluation quotes its token and nothing else. -/
theorem EvalError.not_mem_message {e : EvalError} (hcause : e.cause.isWorded)
    (hlexeme : '\n' ∉ e.token.lexeme.toList) : '\n' ∉ e.message.toList := by
  unfold EvalError.message
  split
  · decide
  · decide
  · decide
  · simp [hlexeme]
  · next h => simp [h, EvalCause.isWorded] at hcause

variable {source : String}

theorem fitsIn_scan {e : LexicalError} (h : tokensOf source = .error e) :
    (Problem.scan e).FitsIn source := by
  refine ⟨isLineOf_of_tokensOf_eq_error h, Problem.not_mem_report ?_⟩
  rcases tokensOf_eq_error h with rfl | ⟨c, rest, -, rfl⟩
  · show '\n' ∉ "unterminated string".toList
    decide
  · show '\n' ∉ ("unexpected character " ++ Text.debugForm (String.singleton c)).toList
    rw [String.toList_append, List.mem_append, not_or]
    exact ⟨by decide, Text.not_mem_debugForm _⟩

theorem beforeEnd_subset (ts : List Token) : beforeEnd ts ⊆ ts :=
  (List.takeWhile_sublist _).subset

section Scanned

variable {tokens : List Token} (htokens : tokensOf source = .ok tokens)
include htokens

theorem fitsIn_parse {e : SyntaxError} (he : e.IsAbout (· ∈ tokens)) :
    (Problem.parse e).FitsIn source := by
  cases he with
  | @stray t ht hkind =>
    refine ⟨isLineOf_of_tokensOf htokens t ht, Problem.not_mem_report ?_⟩
    have hlexeme := not_mem_lexeme_of_tokensOf htokens t ht hkind
    show '\n' ∉ ("unexpected token: \"" ++ t.lexeme ++ "\"").toList
    simp [hlexeme]
  | @missing cause t hcause ht =>
    refine ⟨isLineOf_of_tokensOf htokens t ht, Problem.not_mem_report ?_⟩
    show '\n' ∉ cause.message.toList
    cases cause with
    | strayToken _ | custom _ => cases hcause
    | _ => decide

theorem fitsIn_evaluate {e : EvalError} (he : IsPointOf tokens e.token)
    (hcause : e.cause.isWorded) : (Problem.evaluate e).FitsIn source := by
  obtain ⟨hmem, hkind⟩ := he
  have hlexeme := not_mem_lexeme_of_tokensOf htokens e.token hmem hkind
  exact ⟨isLineOf_of_tokensOf htokens e.token hmem,
    Problem.not_mem_report (EvalError.not_mem_message hcause hlexeme)⟩

end Scanned

/-! ## §4. Outcomes. -/

/-- How the run of a text in some scopes can end. -/
inductive Outcome.IsOf (source : String) (c : Chain) : Outcome → Prop where
  | finished {tokens : List Token} {p : List Stmt} :
      tokensOf source = .ok tokens → programOf tokens = .ok p → (execute p c).result = .ok () →
      IsOf source c ⟨.finished, []⟩
  /-- The text cannot be cut into tokens. -/
  | unscanned {e : LexicalError} :
      tokensOf source = .error e → IsOf source c ⟨.rejected, [.scan e]⟩
  /-- The tokens are no program; all that is wrong with them is told, in order. -/
  | unread {tokens : List Token} {es : List SyntaxError} :
      tokensOf source = .ok tokens → programOf tokens = .error es → es = syntaxErrors tokens →
      es ≠ [] → IsOf source c ⟨.rejected, es.map .parse⟩
  /-- A statement fails, at a token of the text and with its line. -/
  | failed {tokens : List Token} {p : List Stmt} {e : EvalError} :
      tokensOf source = .ok tokens → programOf tokens = .ok p →
      (execute p c).result = .error (.error e) → e.token ∈ tokens →
      (Problem.evaluate e).line = e.token.line → IsOf source c ⟨.failed, [.evaluate e]⟩

/-- Execution of a program that was read fails at one of its tokens. -/
theorem isPointOf_of_execute {tokens : List Token} {p : List Stmt}
    (h : programOf tokens = .ok p) {c : Chain} {e : EvalError}
    (hfail : (execute p c).result = .error (.error e)) :
    IsPointOf (beforeEnd tokens) e.token ∧ e.cause.isWorded := by
  have hprogram := Reader.isProgram_beforeEnd h
  have hat := failsAt_execute p c e hfail
  exact ⟨hprogram.isPointOf e.token hat.mem, hat.worded⟩

/-- A run ends in one of the ways, and its problems fit in the text. -/
theorem exists_isOf (source : String) {c : Chain} (h : c.HoldsLanguage) :
    ∃ o, (run source c).outcome = .ok o ∧ o.IsOf source c ∧ ∀ p ∈ o.problems, p.FitsIn source := by
  cases htokens : tokensOf source with
  | error e =>
    have hcompile : (compile source).2 = .error [.scan e] := by
      unfold compile
      rw [htokens]
    rw [run_of_error hcompile]
    exact ⟨_, rfl, .unscanned htokens, List.forall_mem_singleton.2 (fitsIn_scan htokens)⟩
  | ok tokens =>
    cases hprogram : programOf tokens with
    | error es =>
      obtain ⟨hes, hne⟩ := programOf_eq_error hprogram
      rw [run_of_error (compile_eq_error_of_programOf htokens hprogram)]
      refine ⟨_, rfl, .unread htokens hprogram hes hne, ?_⟩
      rw [List.forall_mem_map]
      intro e he
      rw [hes] at he
      have habout := isAbout_of_mem_syntaxErrors e he
      exact fitsIn_parse htokens (habout.mono fun t ht => beforeEnd_subset tokens ht)
    | ok p =>
      have hcompile := (compile_eq_ok_iff_tokensOf source p).2 ⟨tokens, htokens, hprogram⟩
      have hsafe := (safe_run source h).outcome
      rw [run_of_ok hcompile] at hsafe ⊢
      dsimp only at hsafe ⊢
      rw [outcome_runProgram] at hsafe ⊢
      cases hresult : (execute p c).result with
      | ok u => exact ⟨_, rfl, .finished htokens hprogram hresult, by simp⟩
      | error f =>
        cases f with
        | misuse m =>
          rw [hresult] at hsafe
          obtain ⟨o, ho⟩ := hsafe
          cases ho
        | error e =>
          obtain ⟨hbefore, hcause⟩ := isPointOf_of_execute hprogram hresult
          have hpoint := hbefore.mono (beforeEnd_subset tokens)
          exact ⟨_, rfl, .failed htokens hprogram hresult hpoint.1 rfl,
            List.forall_mem_singleton.2 (fitsIn_evaluate htokens hpoint hcause)⟩

/-- **STATUS, PROBLEMS AND REPORTS AGREE.**  In scopes of language values every
run ends in one of the ways.  Every problem has a line of the text and a report
in one line.  And the reports are written one by one in the order of the
problems, with one flush behind them, or nothing is written if there are
none. -/
theorem exists_outcome_isOf (source : String) {c : Chain} (h : c.HoldsLanguage) :
    ∃ o, (run source c).outcome = .ok o ∧ o.IsOf source c
      ∧ (∀ p ∈ o.problems, p.FitsIn source)
      ∧ signalsOf .reports (run source c).events = reportSignals o.problems := by
  obtain ⟨o, ho, hisOf, hfits⟩ := exists_isOf source h
  obtain ⟨texts, -, hsignals⟩ := signals_run source c
  refine ⟨o, ho, hisOf, hfits, ?_⟩
  rw [signalsOf, hsignals, Run.problems, ho]
  rfl

/-- A name of an inner scope holds no number.  The string before it goes over
two lines, and is printed before the failure is reported. -/
theorem exists_outcome_isOf_nested :
    nestedScopes.HoldsLanguage
      ∧ ∃ o, (run "print \"a\nb\";\nprint -c;" nestedScopes).outcome = .ok o
        ∧ o.IsOf "print \"a\nb\";\nprint -c;" nestedScopes
        ∧ (∀ p ∈ o.problems, p.FitsIn "print \"a\nb\";\nprint -c;")
        ∧ reportSignals o.problems
          = [.write "[line 3] Error: operand must be a number\n", .flush] := by
  obtain ⟨o, ho, hisOf, hfits, hreports⟩ :=
    exists_outcome_isOf "print \"a\nb\";\nprint -c;" holdsLanguage_nestedScopes
  refine ⟨holdsLanguage_nestedScopes, o, ho, hisOf, hfits, ?_⟩
  rw [← hreports]
  cbv

end LoxScript
