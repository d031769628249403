/-
  LoxScript.Proofs.Command.Located
  ────────────────────────────────
  The errors of a prompt are on the line just typed.

  What a prompt runs is a single line, with its LF at the end if it has one
  (`Text.IsSingle`).  The lexemes stand before that LF, so whatever is wrong
  with a token or with a character is on line 1.  Only a string that is left
  open reads on over the LF, and is reported on the line behind it:

      > print -"a";⏎       [line 1] Error: operand must be a number
      > print "a;⏎         [line 2] Error: unterminated string
      > print "a;          [line 1] Error: unterminated string
-/
import LoxScript.Proofs.Command.Prompt
import LoxScript.Proofs.Run.Reports
import LoxScript.Proofs.Scan.Stops

namespace LoxScript

/-! ## §1. Single lines. -/

namespace Text

/-- A text with no line break but at its end. -/
def IsSingle (cs : List Char) : Prop := '\n' ∉ cs.dropLast

theorem isSingle_of_not_mem {cs : List Char} (h : '\n' ∉ cs) : IsSingle cs :=
  fun hmem => h (List.dropLast_subset cs hmem)

theorem SplitsInto.isSingle {text : List Char} {ls : List (List Char)} (h : SplitsInto text ls) :
    ∀ l ∈ ls, IsSingle l := by
  induction h with
  | nil => exact fun l hl => absurd hl List.not_mem_nil
  | rest _ hl => exact List.forall_mem_singleton.2 (isSingle_of_not_mem hl)
  | @line l text ls hl _ ih =>
    refine List.forall_mem_cons.2 ⟨?_, ih⟩
    rw [IsSingle, List.dropLast_concat]
    exact hl

/-- What a single line begins with has no line break, unless it ends with it. -/
theorem IsSingle.not_mem {cs rest : List Char} (h : IsSingle (cs ++ rest))
    (hlast : cs.getLast? ≠ some '\n') : '\n' ∉ cs := by
  rcases List.eq_nil_or_concat' cs with rfl | ⟨before, c, rfl⟩
  · exact List.not_mem_nil
  · rw [List.getLast?_concat, ne_eq, Option.some.injEq] at hlast
    have hbefore : '\n' ∉ before := by
      intro hmem
      refine h ?_
      rw [List.append_assoc, List.dropLast_append_of_ne_nil (by simp)]
      exact List.mem_append_left _ hmem
    rw [List.mem_append, List.mem_singleton, not_or]
    exact ⟨hbefore, Ne.symm hlast⟩

/-- A single line has one line break if it ends with it, and none if not. -/
theorem IsSingle.breaks_eq {cs : List Char} (h : IsSingle cs) :
    breaks cs = if cs.getLast? = some '\n' then 1 else 0 := by
  rcases List.eq_nil_or_concat' cs with rfl | ⟨before, c, rfl⟩
  · rfl
  · rw [IsSingle, List.dropLast_concat] at h
    rw [breaks_append, List.getLast?_concat, breaks, List.count_eq_zero.2 h, Nat.zero_add, breaks,
      List.count_singleton]
    simp only [beq_iff_eq, Option.some.injEq]

end Text

/-! ## §2. Errors of a single line. -/

/-- No lexeme ends with a line break. -/
theorem IsLexeme.getLast?_ne {l : List Char} {k : Kind} {v : Value} (h : IsLexeme l k v) :
    l.getLast? ≠ some '\n' := by
  have hsingles : ∀ p ∈ Kind.singles, p.2 ≠ .string := by decide
  have hpairs : ∀ p ∈ Kind.pairs, p.2.1 ≠ .string ∧ p.2.2 ≠ .string := by decide
  have hkeywords : ∀ p ∈ Kind.keywords, p.2 ≠ .string := by decide
  intro hlast
  -- only strings hold line breaks, and they end with a quote
  obtain rfl : k = .string := by
    by_contra hk
    exact h.not_mem hk (List.mem_of_getLast? hlast)
  cases h with
  | single hm => exact hsingles _ hm rfl
  | joined hm => exact (hpairs _ hm).1 rfl
  | alone hm => exact (hpairs _ hm).2 rfl
  | string _ =>
    rw [List.getLast?_concat] at hlast
    exact absurd hlast (by decide)
  | keyword hm => exact hkeywords _ hm rfl

/-- The line on which a problem of a single line is reported.  A string left
open is reported where the text ends. -/
def Problem.lineIn (line : String) : Problem → Int
  | .scan ⟨.openString, _⟩ => if line.toList.getLast? = some '\n' then 2 else 1
  | _ => 1

section Single

variable {line : String} (hline : Text.IsSingle line.toList)
include hline

/-- All tokens but the one at the end are on line 1. -/
theorem line_of_mem_beforeEnd {tokens : List Token} (h : tokensOf line = .ok tokens) :
    ∀ t ∈ beforeEnd tokens, t.line = 1 := by
  obtain ⟨hstop, rfl⟩ := (tokensOf_eq_ok_iff line tokens).1 h
  intro t ht
  have hplaced : t ∈ place 1 (cut line.toList).pieces := by
    rcases List.mem_append.1 (beforeEnd_subset _ ht) with hplaced | hlast
    · exact hplaced
    · have hkind := List.mem_takeWhile_imp ht
      rw [List.mem_singleton.1 hlast] at hkind
      exact absurd hkind (by simp [endToken])
  obtain ⟨ts, us, hsplit⟩ := List.append_of_mem hplaced
  obtain ⟨before, after, hstands, hat⟩ := exists_standsAt_of_cut _ hstop 1 ts t us hsplit
  have hlexeme := hstands.back.isLexeme t List.mem_cons_self
  -- the text up to the end of the token does not end with a line break, so it has none
  have hlast : (before ++ t.lexeme.toList).getLast? ≠ some '\n' := by
    rw [List.getLast?_append_of_ne_nil _ hlexeme.ne_nil]
    exact hlexeme.getLast?_ne
  rw [hstands.text_eq, ← List.append_assoc] at hline
  have hzero : Text.breaks (before ++ t.lexeme.toList) = 0 :=
    List.count_eq_zero.2 (hline.not_mem hlast)
  rw [Text.breaks_append] at hzero
  rw [hat, Nat.add_assoc, hzero]
  rfl

theorem line_of_scan {e : LexicalError} (h : tokensOf line = .error e) :
    (Problem.scan e).line = (Problem.scan e).lineIn line := by
  rcases tokensOf_eq_error h with rfl | ⟨c, rest, hstop, rfl⟩
  · show ((1 + Text.breaks line.toList : Nat) : Int) = if _ then 2 else 1
    rw [hline.breaks_eq]
    split <;> rfl
  · -- a line break is a blank, so the stray character is another
    have hblank : c ∉ blanks := by
      cases blocks_of_stray hstop with
      | stray hblank _ => exact hblank
    have htext := cut_text line.toList
    rw [hstop, Stop.rest, ← List.singleton_append, ← List.append_assoc] at htext
    rw [← htext] at hline
    have hnone : '\n' ∉ piecesText (cut line.toList).pieces ++ [c] := by
      refine hline.not_mem ?_
      rw [List.getLast?_concat, ne_eq, Option.some.injEq]
      rintro rfl
      exact hblank (by decide)
    show ((1 + Text.breaks (piecesText (cut line.toList).pieces) : Nat) : Int) = 1
    rw [Text.breaks, List.count_eq_zero.2 fun hmem => hnone (List.mem_append_left _ hmem)]
    rfl

/-- **A LINE**: all that is wrong with it is on line 1, but for a string left
open before its LF. -/
theorem line_of_mem_problems {c : Chain} (hc : c.HoldsLanguage) :
    ∀ p ∈ (run line c).problems, p.line = p.lineIn line := by
  obtain ⟨o, ho, hisOf, -⟩ := exists_isOf line hc
  have hproblems : (run line c).problems = o.problems := by
    rw [Run.problems, ho]
  rw [hproblems]
  cases hisOf with
  | finished _ _ _ => exact fun p hp => absurd hp List.not_mem_nil
  | unscanned htokens => exact List.forall_mem_singleton.2 (line_of_scan hline htokens)
  | unread htokens _ hes _ =>
    rw [List.forall_mem_map]
    intro e he
    rw [hes] at he
    have habout := isAbout_of_mem_syntaxErrors e he
    have hone := line_of_mem_beforeEnd hline htokens
    cases habout with
    | stray ht _ => exact hone _ ht
    | missing _ ht => exact hone _ ht
  | failed htokens hprogram hresult _ hat =>
    obtain ⟨hpoint, -⟩ := isPointOf_of_execute hprogram hresult
    exact List.forall_mem_singleton.2 (line_of_mem_beforeEnd hline htokens _ hpoint.1)

end Single

/-! ## §3. Errors of a prompt. -/

/-- The lines of a prompt, one by one. -/
theorem forall₂_session {lines : List String} (h : ∀ l ∈ lines, Text.IsSingle l.toList)
    {c : Chain} (hc : c.HoldsLanguage) :
    List.Forall₂ (fun line r => ∀ p ∈ Run.problems r, p.line = p.lineIn line) lines
      (session lines c) := by
  induction lines generalizing c with
  | nil => exact .nil
  | cons line lines ih =>
    rw [List.forall_mem_cons] at h
    exact .cons (line_of_mem_problems h.1 hc) (ih h.2 (safe_run line hc).chain)

namespace Command

/-- **THE PROMPT LOCATES ITS ERRORS.**  Whatever text standard input delivers,
a prompt reports the problems that the runs of its lines find, in order.  Each
of them is on line 1 of the line just typed, but a string left open before
an LF: that is on line 2. -/
theorem perform_prompt_located (verbosity : Nat) :
    (∀ entry input, Text.SplitsInto input.toList ((Prompt.linesOf input).map String.toList)
        ∧ Invocation.perform ⟨verbosity, .run none⟩ entry input
          = .ofEvents verbosity 0 (Prompt.transcript (Prompt.linesOf input) Chain.empty)
        ∧ signalsOf .reports (Prompt.transcript (Prompt.linesOf input) Chain.empty)
          = (session (Prompt.linesOf input) Chain.empty).flatMap
              (fun r => reportSignals r.problems)
        ∧ List.Forall₂ (fun line r => ∀ p ∈ Run.problems r, p.line = p.lineIn line)
            (Prompt.linesOf input) (session (Prompt.linesOf input) Chain.empty))
      ∧ AskFor (promptArguments verbosity) ⟨verbosity, .run none⟩ := by
  refine ⟨fun _ input => ?_, askFor_prompt verbosity⟩
  have hsplits := splitsInto_linesOf input
  refine ⟨hsplits, rfl, ?_, forall₂_session ?_ Chain.holdsLanguage_empty⟩
  · rw [Prompt.reports_transcript]
    refine List.flatMap_congr fun r hr => ?_
    obtain ⟨line, c, rfl⟩ := exists_of_mem_session hr
    exact reports_run line c
  · intro l hl
    exact hsplits.isSingle _ (List.mem_map_of_mem hl)

/-- A string left open before an LF is not on line 1. -/
theorem perform_prompt_second :
    ¬ ∀ input, ∀ r ∈ session (Prompt.linesOf input) Chain.empty, ∀ p ∈ r.problems,
        p.line = 1 := by
  intro h
  have hlines : Prompt.linesOf "\"\n" = ["\"\n"] := by
    decide
  have hcut : cut "\"\n".toList = ⟨[], .unclosed ['\x22', '\n']⟩ := by
    cbv
  have htokens : tokensOf "\"\n" = .error ⟨.openString, 2⟩ := by
    unfold tokensOf scan
    rw [hcut]
    rfl
  have hcompile : (compile "\"\n").2 = .error [.scan ⟨.openString, 2⟩] := by
    unfold compile
    rw [htokens]
  have hproblems : (run "\"\n" Chain.empty).problems = [.scan ⟨.openString, 2⟩] := by
    rw [run_of_error hcompile]
    rfl
  have hall := h "\"\n"
  rw [hlines] at hall
  have hone := hall _ List.mem_cons_self
  rw [hproblems] at hone
  exact absurd (hone _ List.mem_cons_self) (by decide)

end Command
end LoxScript
