/-
  LoxScript.Proofs.Reader.Parsing
  ────────────────────────────────
  What a parse comes to.

  The turns of a parser make the attempts that its tokens hold, and the last
  one leaves the cursor at the first end token or behind the list.  So a parse
  is a function of the tokens before that (`parse_eq`), and what is known of
  the attempts is known of parses:

      parse_append       — behind tokens that parse, others are parsed as if
                           they stood alone
      parse_of_endOfText — an end token, and what stands behind it, is not read
      parse_matches      — tokens of the same kinds are parsed alike, over the
                           tokens at the same places
-/
import LoxScript.Proofs.Reader.Completeness
import LoxScript.Proofs.Reader.Kinds
import LoxScript.Proofs.Reader.Segments

namespace LoxScript
namespace Parser
open Reader

/-! ## §1. A parse in one equation. -/

/-- What a parse gives that has made these statements and found these errors. -/
def verdict (stmts : List Stmt) : List SyntaxError → Except Rejection (List Stmt)
  | [] => .ok stmts
  | e :: es => .error ⟨e, e :: es⟩

theorem parse_eq_verdict (p : Parser) :
    p.parse
      = (verdict (ofTokens p.tokens).turns.1 (ofTokens p.tokens).turns.2.errors,
          (ofTokens p.tokens).turns.2) := by
  unfold parse
  dsimp only
  cases (ofTokens p.tokens).turns.2.errors <;> rfl

theorem errorsOf_eq {ts : List Token} {pieces : List (List Token × Attempt)}
    (h : pieces.map Prod.snd = attempts ts) : errorsOf pieces = syntaxErrors ts := by
  unfold syntaxErrors
  rw [← h, List.filterMap_map]
  refine List.filterMap_congr fun x _ => ?_
  cases hx : x.2 <;> simp [errorOf?, hx]

theorem statementsOf_eq {ts : List Token} {pieces : List (List Token × Attempt)}
    (h : pieces.map Prod.snd = attempts ts) : statementsOf pieces = statements ts := by
  unfold statements
  rw [← h, List.filterMap_map]
  rfl

/-- Where turns end, the cursor stands behind all that is read. -/
theorem current_of_segments {p q : Parser} {pieces : List (List Token × Attempt)}
    (h : Segments p.tokens pieces q.rest) (htokens : q.tokens = p.tokens)
    (hbound : q.current ≤ p.tokens.length) : q.current = (beforeEnd p.tokens).length := by
  have hflatten := h.flatten
  have hread : beforeEnd p.tokens = (pieces.map Prod.fst).flatten := by
    rw [hflatten]
    exact beforeEnd_append h.plain h.stop
  have hlength := congrArg List.length hflatten
  rw [List.length_append, length_rest, htokens] at hlength
  rw [hread]
  omega

/-- **A PARSE** gives the statements or all errors of the tokens before the
first end token, wherever an earlier parse has left the cursor and whatever it
has found wrong. -/
theorem parse_eq (p : Parser) :
    p.parse = (verdict (statements p.tokens) (syntaxErrors p.tokens),
      ⟨p.tokens, (beforeEnd p.tokens).length, syntaxErrors p.tokens⟩) := by
  obtain ⟨pieces, htokens, hbound, hsegments, hattempts, herrors, hstmts⟩ :=
    exists_turnsTo (ofTokens p.tokens) (Nat.zero_le _)
  have hcurrent : (ofTokens p.tokens).turns.2.current = (beforeEnd p.tokens).length :=
    current_of_segments hsegments htokens hbound
  have herrors' : (ofTokens p.tokens).turns.2.errors = syntaxErrors p.tokens :=
    herrors.trans (errorsOf_eq hattempts)
  have hstmts' : (ofTokens p.tokens).turns.1 = statements p.tokens :=
    hstmts.trans (statementsOf_eq hattempts)
  have hparser : (ofTokens p.tokens).turns.2
      = ⟨p.tokens, (beforeEnd p.tokens).length, syntaxErrors p.tokens⟩ := by
    rw [← hcurrent, ← herrors']
    exact congrArg (Parser.mk · _ _) htokens
  rw [parse_eq_verdict, hstmts', hparser]

theorem parse_fst_eq_ok_iff {p : Parser} {stmts : List Stmt} :
    p.parse.1 = .ok stmts ↔ programOf p.tokens = .ok stmts := by
  rw [parse_eq]
  unfold programOf
  cases syntaxErrors p.tokens <;> simp [verdict]

/-! ## §2. Tokens one after another. -/

theorem programOf_eq_ok_iff_syntaxErrors {ts : List Token} {stmts : List Stmt} :
    programOf ts = .ok stmts ↔ syntaxErrors ts = [] ∧ statements ts = stmts := by
  unfold programOf
  cases syntaxErrors ts <;> simp

/-- What follows a program is attempted as if it stood alone. -/
theorem attempts_append_of_programOf {ts : List Token} {stmts : List Stmt}
    (hts : ∀ t ∈ ts, t.kind ≠ .endOfText) (h : programOf ts = .ok stmts) (us : List Token) :
    attempts (ts ++ us) = attempts ts ++ attempts us := by
  have hprogram := isProgram_beforeEnd h
  rw [beforeEnd_of_ne hts] at hprogram
  rw [(programOf_eq_ok_iff ts stmts).1 h, attempts, beforeEnd_append_of_ne hts]
  exact attempts_append_of_isProgram hprogram _

theorem verdict_append (stmts stmts' : List Stmt) (es : List SyntaxError) :
    verdict (stmts ++ stmts') es = (verdict stmts' es).map (stmts ++ ·) := by
  cases es <;> rfl

/-- **PARSING IS COMPOSITIONAL.**  Behind tokens that parse, all others are
parsed as if they stood alone: their statements come behind those of the
first, their errors are the only ones, and the cursor is as far behind. -/
theorem parse_append {p q r : Parser} {stmts : List Stmt} (hp : p.parse.1 = .ok stmts)
    (hend : ∀ t ∈ p.tokens, t.kind ≠ .endOfText) (hr : r.tokens = p.tokens ++ q.tokens) :
    r.parse.1 = q.parse.1.map (stmts ++ ·)
      ∧ r.parse.2.errors = q.parse.2.errors
      ∧ r.parse.2.current = p.tokens.length + q.parse.2.current := by
  have hprogram := parse_fst_eq_ok_iff.1 hp
  obtain ⟨hnone, hall⟩ := programOf_eq_ok_iff_syntaxErrors.1 hprogram
  have hattempts := attempts_append_of_programOf hend hprogram q.tokens
  have herrors : syntaxErrors r.tokens = syntaxErrors q.tokens := by
    have happend : syntaxErrors r.tokens = syntaxErrors p.tokens ++ syntaxErrors q.tokens := by
      unfold syntaxErrors
      rw [hr, hattempts, List.filterMap_append]
    rw [happend, hnone, List.nil_append]
  have hstmts : statements r.tokens = stmts ++ statements q.tokens := by
    have happend : statements r.tokens = statements p.tokens ++ statements q.tokens := by
      unfold statements
      rw [hr, hattempts, List.filterMap_append]
    rw [happend, hall]
  rw [parse_eq r, parse_eq q, herrors, hstmts]
  refine ⟨verdict_append _ _ _, rfl, ?_⟩
  show (beforeEnd r.tokens).length = p.tokens.length + (beforeEnd q.tokens).length
  rw [hr, beforeEnd_append_of_ne hend, List.length_append]

/-- A program, and behind it two errors. -/
theorem parse_append_sample :
    let p : Parser := ⟨sampleTokens, 5, [⟨.missingName, 1⟩]⟩
    let q : Parser := ofTokens [bare .wordPrint, bare .semicolon, bare .wordVar, bare .endOfText]
    let r : Parser := ofTokens (sampleTokens ++ q.tokens)
    p.parse.1 = .ok sampleProgram ∧ (∀ t ∈ p.tokens, t.kind ≠ .endOfText)
      ∧ r.tokens = p.tokens ++ q.tokens
      ∧ r.parse.1 = q.parse.1.map (sampleProgram ++ ·)
      ∧ r.parse.2.errors = q.parse.2.errors
      ∧ r.parse.2.current = p.tokens.length + q.parse.2.current := by
  intro p q r
  have hp : p.parse.1 = .ok sampleProgram := parse_fst_eq_ok_iff.2 rfl
  have hend : ∀ t ∈ p.tokens, t.kind ≠ .endOfText := isProgram_sample.kind_ne_endOfText
  exact ⟨hp, hend, rfl, parse_append hp hend rfl⟩

/-! ## §3. The end token. -/

/-- **NOTHING FROM THE FIRST END TOKEN ON IS READ.**  Tokens are parsed in the
same way if no end token closes them, if one does, and if more tokens follow
it; and every error is about a token in front of it. -/
theorem parse_of_endOfText {p q : Parser} {e : Token} {us : List Token}
    (hq : ∀ t ∈ q.tokens, t.kind ≠ .endOfText) (he : e.kind = .endOfText)
    (hp : p.tokens = q.tokens ++ e :: us) :
    p.parse.1 = q.parse.1 ∧ p.parse.2.errors = q.parse.2.errors
      ∧ p.parse.2.current = q.tokens.length ∧ q.parse.2.current = q.tokens.length
      ∧ ∀ err ∈ p.parse.2.errors, err.IsAbout (· ∈ q.tokens) := by
  have hread : beforeEnd q.tokens = q.tokens := beforeEnd_of_ne hq
  have hread' : beforeEnd p.tokens = q.tokens := by
    rw [hp]
    refine beforeEnd_append hq ?_
    intro t ht
    obtain rfl := Option.some.inj ht
    exact he
  have hattempts : attempts p.tokens = attempts q.tokens := by
    rw [attempts, attempts, hread, hread']
  have herrors : syntaxErrors p.tokens = syntaxErrors q.tokens := by
    rw [syntaxErrors, syntaxErrors, hattempts]
  have hstmts : statements p.tokens = statements q.tokens := by
    rw [statements, statements, hattempts]
  have habout := @isAbout_of_mem_syntaxErrors p.tokens
  rw [hread'] at habout
  rw [parse_eq p, parse_eq q, hstmts]
  refine ⟨by rw [herrors], herrors, ?_, ?_, habout⟩
  · exact congrArg List.length hread'
  · exact congrArg List.length hread

/-- An end token with a line and a lexeme of its own where an operand is due. -/
theorem parse_of_endOfText_print :
    let q : Parser := ofTokens [bare .wordNil, bare .semicolon, bare .wordPrint]
    let e : Token := ⟨.endOfText, "nil", .text "", 9⟩
    let p : Parser := ⟨q.tokens ++ e :: [bare .wordNil, bare .semicolon], 4, []⟩
    (∀ t ∈ q.tokens, t.kind ≠ .endOfText) ∧ e.kind = .endOfText
      ∧ p.parse.1 = q.parse.1 ∧ p.parse.2.errors = q.parse.2.errors
      ∧ p.parse.2.current = 3 ∧ q.parse.2.current = 3
      ∧ ∀ err ∈ p.parse.2.errors, err.IsAbout (· ∈ q.tokens) := by
  intro q e p
  have hq : ∀ t ∈ q.tokens, t.kind ≠ .endOfText := by decide
  exact ⟨hq, rfl, parse_of_endOfText hq rfl rfl⟩

/-! ## §4. Kinds. -/

/-- Tokens at the same place of two lists. -/
def AtSamePlace (ts us : List Token) (t u : Token) : Prop :=
  ∃ i : Nat, ts[i]? = some t ∧ us[i]? = some u

/-- The same statements over related tokens, or the same errors, the first one
first. -/
inductive Verdict.Matches (R : Token → Token → Prop) :
    Except Rejection (List Stmt) → Except Rejection (List Stmt) → Prop where
  | ok {stmts stmts' : List Stmt} :
      List.Forall₂ (Stmt.Matches R) stmts stmts' → Matches R (.ok stmts) (.ok stmts')
  | error {e e' : SyntaxError} {es es' : List SyntaxError} :
      e.Matches R e' → List.Forall₂ (SyntaxError.Matches R) es es' →
      Matches R (.error ⟨e, es⟩) (.error ⟨e', es'⟩)

theorem verdict_matches {R : Token → Token → Prop} {stmts stmts' : List Stmt}
    {es es' : List SyntaxError} (hstmts : List.Forall₂ (Stmt.Matches R) stmts stmts')
    (hes : List.Forall₂ (SyntaxError.Matches R) es es') :
    Verdict.Matches R (verdict stmts es) (verdict stmts' es') := by
  cases hes with
  | nil => exact .ok hstmts
  | cons he hes => exact .error he (.cons he hes)

theorem forall₂_atSamePlace {ts us : List Token} (h : ts.length = us.length) :
    List.Forall₂ (AtSamePlace ts us) ts us := by
  rw [List.forall₂_iff_zip]
  refine ⟨h, ?_⟩
  intro t u htu
  obtain ⟨i, hi⟩ := List.mem_iff_getElem?.1 htu
  exact ⟨i, List.getElem?_zip_eq_some.1 hi⟩

theorem AtSamePlace.kind_eq {ts us : List Token} {t u : Token}
    (hkinds : ts.map Token.kind = us.map Token.kind) (h : AtSamePlace ts us t u) :
    t.kind = u.kind := by
  obtain ⟨i, ht, hu⟩ := h
  have hi := congrArg (·[i]?) hkinds
  simpa [ht, hu] using hi

/-- **ONLY KINDS STEER A PARSE.**  Two lists of tokens of the same kinds both
parse, to the same trees over the tokens at the same places, or both have the
same errors, about the tokens at the same places; and the cursor ends at the
same place. -/
theorem parse_matches {p q : Parser}
    (h : p.tokens.map Token.kind = q.tokens.map Token.kind) :
    Verdict.Matches (AtSamePlace p.tokens q.tokens) p.parse.1 q.parse.1
      ∧ List.Forall₂ (SyntaxError.Matches (AtSamePlace p.tokens q.tokens))
          p.parse.2.errors q.parse.2.errors
      ∧ p.parse.2.current = q.parse.2.current := by
  have hlength : p.tokens.length = q.tokens.length := by
    simpa using congrArg List.length h
  have hplaces := forall₂_atSamePlace hlength
  have hR : ∀ t u, AtSamePlace p.tokens q.tokens t u → t.kind = u.kind :=
    fun _ _ htu => htu.kind_eq h
  have herrors := syntaxErrors_matches hR hplaces
  have hstmts := statements_matches hR hplaces
  rw [parse_eq p, parse_eq q]
  exact ⟨verdict_matches hstmts herrors, herrors, (beforeEnd_matches hR hplaces).length_eq⟩

/-- A statement and an error of tokens that share nothing but their kinds. -/
theorem parse_matches_literals :
    let p : Parser := ofTokens [⟨.number, "0", .nil, 1⟩, ⟨.semicolon, ";", .nil, 1⟩,
      ⟨.wordPrint, "print", .nil, 2⟩, ⟨.semicolon, ";", .nil, 3⟩]
    let q : Parser := ofTokens [⟨.number, "print", .text "", 9⟩, ⟨.semicolon, "", .truth false, 5⟩,
      ⟨.wordPrint, ";", .name "a", 5⟩, ⟨.semicolon, "nil", .truth true, 4⟩]
    p.tokens.map Token.kind = q.tokens.map Token.kind
      ∧ Verdict.Matches (AtSamePlace p.tokens q.tokens) p.parse.1 q.parse.1
      ∧ List.Forall₂ (SyntaxError.Matches (AtSamePlace p.tokens q.tokens))
          p.parse.2.errors q.parse.2.errors
      ∧ p.parse.2.current = q.parse.2.current := by
  intro p q
  have hkinds : p.tokens.map Token.kind = q.tokens.map Token.kind := rfl
  exact ⟨hkinds, parse_matches hkinds⟩

end Parser
end LoxScript
