/-
  LoxScript.Proofs.Reader.Recovery
  ────────────────────────────────
  How reading goes on after an error.

  After an error the reader looks for the next statement (`resume`).  An
  error that a token shows without belonging to the statement leaves that
  token to be looked at again, so a `;` there still ends the statement.  But
  where an operand is due, the token that is none is the error, and it is
  gone: if it is a `;`, the search goes on into the next statement.

      print true true ; B    — the search ends at the `;`, then `B` is read
      print ; B              — the search goes on, then `resume B` is read

  So what is read behind a `;` depends on one thing about the tokens before
  it: whether they ask for an operand (`State.awaitsOperand`).
-/
import LoxScript.Proofs.Reader.Steps
import LoxScript.Tree.Parser

namespace LoxScript
namespace Reader

/-! ## §1. The next statement. -/

theorem beforeEnd_cons_of_ne {t : Token} (ht : t.kind ≠ .endOfText) (ts : List Token) :
    beforeEnd (t :: ts) = t :: beforeEnd ts :=
  List.takeWhile_cons_of_pos (decide_eq_true ht)

/-- **Skipping** attempts what is left from the next statement on. -/
theorem attempts_resume (ts : List Token) :
    attempts (resume ts) = State.skipping.attempts (beforeEnd ts) := by
  induction ts with
  | nil => rfl
  | cons t ts ih =>
    by_cases hend : t.kind = .endOfText
    · rw [resume, if_neg (by rw [hend]; decide), if_pos (.inr hend), attempts,
        beforeEnd_cons_of_eq hend]
      rfl
    · rw [beforeEnd_cons_of_ne hend, State.attempts, resume]
      show _ = (skip t).attempts ++ (skip t).state.attempts (beforeEnd ts)
      by_cases hsemi : t.kind = .semicolon
      · rw [if_pos hsemi, skip, if_pos hsemi, attempts]
        rfl
      · by_cases hword : t.kind.startsStatement
        · -- the keyword is read as it is at the start of the tokens
          rw [if_neg hsemi, if_pos (.inl hword), skip, if_neg hsemi, if_pos hword, attempts,
            beforeEnd_cons_of_ne hend]
          rfl
        · rw [if_neg hsemi, if_neg (not_or.2 ⟨hword, hend⟩), skip, if_neg hsemi, if_neg hword, ih]
          rfl

/-! ## §2. What one token leaves. -/

/-- A `;` ends the statement or the search for its end, unless it is in the
place of an operand. -/
theorem State.read_semicolon (s : State) {semi : Token} (hsemi : semi.kind = .semicolon) :
    (s.read semi).state = if s.awaitsOperand then .skipping else .fresh := by
  have hskip : skip semi = ⟨[], .fresh⟩ := if_pos hsemi
  have hfail : ∀ e, (failBefore e semi).state = .fresh := by
    intro e
    rw [failBefore, hskip]
  have hstray : ∀ o k, (readOperand o k semi).state = .skipping := by
    intro o k
    unfold readOperand
    simp [hsemi, Kind.isLiteral, Kind.isUnary]
  cases s with
  | fresh =>
    show (readStart semi).state = _
    rw [readStart, if_neg (by rw [hsemi]; decide), if_neg (by rw [hsemi]; decide)]
    exact hstray _ _
  | naming last =>
    show (if semi.kind = .identifier then _ else failBefore _ semi).state = _
    rw [if_neg (by rw [hsemi]; decide)]
    exact hfail _
  | named name =>
    show (if semi.kind = .equal then _ else readSemicolon _ _ _ semi).state = _
    rw [if_neg (by rw [hsemi]; decide), readSemicolon, if_pos hsemi]
    rfl
  | operand o k last => exact hstray o k
  | operator o k e last =>
    show (readOperator o k e last semi).state = _
    rcases readOperator_cases o k e last semi with
      ⟨n, hlevel⟩ | hequal | ⟨hparen, -⟩ | ⟨-, e', hclose⟩ | ⟨err, -, herr⟩
    · rw [hsemi] at hlevel
      cases hlevel
    · rw [hsemi] at hequal
      cases hequal
    · rw [hsemi] at hparen
      cases hparen
    · rw [readOperator_of_semicolon o last hsemi hclose]
      rfl
    · rw [herr]
      exact hfail err
  | skipping =>
    show (skip semi).state = _
    rw [hskip]
    rfl

/-- What ends a statement is whole: the end of the tokens adds nothing. -/
theorem State.attempts_semicolon (s : State) {semi : Token} (hsemi : semi.kind = .semicolon) :
    s.attempts [semi] = (s.read semi).attempts := by
  rw [State.attempts, State.attempts, State.read_semicolon s hsemi]
  cases s.awaitsOperand <;> exact List.append_nil _

/-! ## §3. What is read behind it. -/

/-- The attempts behind a `;` are those of the tokens there alone, or of what
is left of them from the next statement on. -/
theorem attempts_append_semicolon {ts : List Token} {semi : Token}
    (hts : ∀ t ∈ ts, t.kind ≠ .endOfText) (hsemi : semi.kind = .semicolon) (us : List Token) :
    attempts (ts ++ semi :: us) = attempts (ts ++ [semi])
      ++ attempts (if (State.fresh.readAll ts).state.awaitsOperand then resume us else us) := by
  have hne : semi.kind ≠ .endOfText := by rw [hsemi]; decide
  have hread : ∀ vs, attempts (ts ++ semi :: vs)
      = (State.fresh.readAll ts).attempts
        ++ (State.fresh.readAll ts).state.attempts (semi :: beforeEnd vs) := by
    intro vs
    rw [attempts, beforeEnd_append_of_ne hts, beforeEnd_cons_of_ne hne, State.attempts_append]
  have hbehind : ∀ s : State, s.attempts (semi :: beforeEnd us)
      = s.attempts [semi] ++ attempts (if s.awaitsOperand then resume us else us) := by
    intro s
    rw [State.attempts_semicolon s hsemi, State.attempts, State.read_semicolon s hsemi]
    cases s.awaitsOperand with
    | true => rw [if_pos rfl, if_pos rfl, attempts_resume]
    | false => rfl
  rw [hread us, hread [], hbehind, List.append_assoc]
  rfl

/-- **RECOVERY.**  Behind a `;` reading starts again: the errors are those of
the tokens up to it, and then those of the tokens behind it as if they stood
alone.  Only behind a `;` in the place of an operand the errors up to the next
statement are hidden. -/
theorem syntaxErrors_append_semicolon {ts : List Token} {semi : Token}
    (hts : ∀ t ∈ ts, t.kind ≠ .endOfText) (hsemi : semi.kind = .semicolon) (us : List Token) :
    syntaxErrors (ts ++ semi :: us) = syntaxErrors (ts ++ [semi])
      ++ syntaxErrors
          (if (State.fresh.readAll ts).state.awaitsOperand then resume us else us) := by
  unfold syntaxErrors
  rw [attempts_append_semicolon hts hsemi, List.filterMap_append]

/-- Two statements, each with a token too many. -/
theorem syntaxErrors_append_semicolon_sample :
    (∀ t ∈ [bare .wordPrint, bare .wordNil, bare .wordTrue], t.kind ≠ .endOfText)
      ∧ (bare .semicolon).kind = .semicolon
      ∧ syntaxErrors ([bare .wordPrint, bare .wordNil, bare .wordTrue]
            ++ bare .semicolon :: [bare .wordTrue, bare .wordTrue, bare .semicolon])
          = [⟨.unclosedPrint, 1⟩] ++ [⟨.unclosedExpression, 1⟩] := by
  have hts : ∀ t ∈ [bare .wordPrint, bare .wordNil, bare .wordTrue], t.kind ≠ .endOfText := by
    decide
  have hsemi : (bare .semicolon).kind = .semicolon := rfl
  exact ⟨hts, hsemi, syntaxErrors_append_semicolon hts hsemi _⟩

/-- The `;` of `print ;` takes the error of the next statement with it. -/
theorem syntaxErrors_hidden :
    ¬ ∀ as bs : List Token, (∀ t ∈ as, t.kind ≠ .endOfText)
        → (∃ semi, as.getLast? = some semi ∧ semi.kind = .semicolon) → syntaxErrors as ≠ []
        → syntaxErrors (as ++ bs) = syntaxErrors as ++ syntaxErrors bs := by
  intro h
  have hboth := h [bare .wordPrint, bare .semicolon]
    [bare .wordTrue, bare .wordTrue, bare .semicolon] (by decide)
    ⟨bare .semicolon, rfl, rfl⟩ (by decide)
  exact absurd hboth (by decide)

end Reader
end LoxScript
