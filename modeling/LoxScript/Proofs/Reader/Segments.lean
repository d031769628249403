/-
  LoxScript.Proofs.Reader.Segments
  ────────────────────────────────
  A parse cuts the tokens into attempts at statements.

  Every attempt takes a segment of the tokens, recovery included, and the
  next attempt starts behind it:

      print nil ;  │  print ; true ;  │  true nil  │  var a ;  │  EOF ..
      statement       error              error        statement

  A segment is never empty, for an attempt takes the token that it starts
  with, and this is why a parse comes to an end.  Read alone, a segment gives
  the very attempt that it gives in front of the tokens behind it, so its
  statement spells it and its error is about one of its own tokens.
-/
import LoxScript.Proofs.Reader.Errors
import LoxScript.Proofs.Reader.Recovery
import LoxScript.Proofs.Reader.Soundness

namespace LoxScript
namespace Reader

/-! ## §1. One token. -/

/-- In the middle of a statement. -/
def State.isInside : State → Bool
  | .fresh | .skipping => false
  | .naming _ | .named _ | .operand _ _ _ | .operator _ _ _ _ => true

theorem State.ne_skipping {s : State} (h : s.isInside) : s ≠ .skipping := by
  rintro rfl
  cases h

theorem State.fresh_ne_skipping : State.fresh ≠ .skipping := by
  intro h
  cases h

/-- All that a token can do to an attempt.  The attempt goes on, or it ends in
a statement, or it ends in an error: then the token is the error and is taken,
or it shows the error that the end of the tokens would have shown. -/
inductive State.Effect (s : State) (t : Token) : Step → Prop where
  | goes {s' : State} : s'.isInside → Effect s t ⟨[], s'⟩
  | ends {stmt : Stmt} : t.kind = .semicolon → Effect s t ⟨[.ok stmt], .fresh⟩
  | taken {e : SyntaxError} : s.awaitsOperand = true → Effect s t ⟨[.error e], .skipping⟩
  | shown {e : SyntaxError} : s.awaitsOperand = false → s.finish = [.error e] →
      Effect s t (failBefore e t)

theorem effect_readOperand {s : State} (hs : s.awaitsOperand = true) (o : Opening)
    (k : List Frame) (t : Token) : s.Effect t (readOperand o k t) := by
  rcases readOperand_cases o k t with ⟨-, h⟩ | ⟨-, h⟩ | ⟨-, h⟩ | ⟨-, h⟩ | h
  · rw [h]; exact .goes rfl
  · rw [h]; exact .goes rfl
  · rw [h]; exact .goes rfl
  · rw [h]; exact .goes rfl
  · rw [h]; exact .taken hs

theorem effect_readStart (t : Token) : State.fresh.Effect t (readStart t) := by
  unfold readStart
  split
  · exact .goes rfl
  · split
    · exact .goes rfl
    · exact effect_readOperand rfl .expression [] t

theorem effect_readSemicolon {s : State} {cause : SyntaxCause} {last : Token}
    (hs : s.awaitsOperand = false) (hfinish : s.finish = [.error ⟨cause, last.line⟩])
    (stmt : Stmt) (t : Token) : s.Effect t (readSemicolon cause stmt last t) := by
  unfold readSemicolon
  split
  · next hsemi => exact .ends hsemi
  · exact .shown hs hfinish

theorem effect_readOperator (o : Opening) (k : List Frame) (e : Expr) (last t : Token) :
    (State.operator o k e last).Effect t (readOperator o k e last t) := by
  rcases readOperator_cases o k e last t with
    ⟨n, hlevel⟩ | hequal | ⟨hparen, e', k', hclose⟩ | ⟨hsemi, e', hclose⟩ | ⟨err, herr, hread⟩
  · rw [readOperator_of_precedence o k e last hlevel]
    exact .goes rfl
  · rw [readOperator_of_equal o k e last hequal]
    exact .goes rfl
  · rw [readOperator_of_rightParen o last hparen hclose]
    exact .goes rfl
  · rw [readOperator_of_semicolon o last hsemi hclose]
    exact .ends hsemi
  · rw [hread]
    exact .shown rfl herr

/-- **One token** in an attempt. -/
theorem effect_read {s : State} (hs : s ≠ .skipping) (t : Token) : s.Effect t (s.read t) := by
  cases s with
  | skipping => exact absurd rfl hs
  | fresh => exact effect_readStart t
  | naming last =>
    show State.Effect _ t (if t.kind = .identifier then _ else _)
    split
    · exact .goes rfl
    · exact .shown rfl rfl
  | named name =>
    show State.Effect _ t (if t.kind = .equal then _ else _)
    split
    · exact .goes rfl
    · exact effect_readSemicolon rfl rfl _ t
  | operand o k last => exact effect_readOperand rfl o k t
  | operator o k e last => exact effect_readOperator o k e last t

/-! ## §2. Skipped tokens. -/

/-- Tokens after which reading starts again: they end with a `;`, or a
keyword that starts a statement follows, or nothing that is read. -/
def IsBoundary (seg rest : List Token) : Prop :=
  (∃ t, seg.getLast? = some t ∧ t.kind = .semicolon)
    ∨ ∀ t ∈ rest.head?, t.kind.startsStatement ∨ t.kind = .endOfText

theorem IsBoundary.cons {seg rest : List Token} (h : IsBoundary seg rest) (t : Token) :
    IsBoundary (t :: seg) rest := by
  rcases h with ⟨u, hlast, hu⟩ | hrest
  · refine .inl ⟨u, ?_, hu⟩
    rw [List.getLast?_cons, hlast]
    rfl
  · exact .inr hrest

/-- Tokens that the search for the next statement leaves behind. -/
structure IsSkipped (seg rest : List Token) : Prop where
  plain : ∀ t ∈ seg, t.kind ≠ .endOfText
  silent : State.skipping.attempts seg = []
  boundary : IsBoundary seg rest

theorem exists_isSkipped (ts : List Token) :
    ∃ seg, ts = seg ++ resume ts ∧ IsSkipped seg (resume ts) := by
  induction ts with
  | nil => exact ⟨[], rfl, by simp, rfl, .inr (by simp [resume])⟩
  | cons t ts ih =>
    rw [resume]
    by_cases hsemi : t.kind = .semicolon
    · rw [if_pos hsemi]
      refine ⟨[t], rfl, ?_, ?_, .inl ⟨t, rfl, hsemi⟩⟩
      · rw [List.forall_mem_singleton, hsemi]
        decide
      · show (skip t).attempts ++ (skip t).state.attempts [] = []
        rw [skip, if_pos hsemi]
        rfl
    · rw [if_neg hsemi]
      by_cases hstop : t.kind.startsStatement ∨ t.kind = .endOfText
      · rw [if_pos hstop]
        refine ⟨[], rfl, by simp, rfl, .inr ?_⟩
        intro u hu
        obtain rfl := Option.some.inj hu
        exact hstop
      · rw [if_neg hstop]
        obtain ⟨hword, hend⟩ := not_or.1 hstop
        obtain ⟨seg, hsplit, hplain, hsilent, hboundary⟩ := ih
        refine ⟨t :: seg, congrArg (t :: ·) hsplit, List.forall_mem_cons.2 ⟨hend, hplain⟩, ?_,
          hboundary.cons t⟩
        show (skip t).attempts ++ (skip t).state.attempts seg = []
        rw [skip, if_neg hsemi, if_neg hword]
        exact hsilent

/-! ## §3. One attempt. -/

/-- What an attempt takes from a state on: tokens that are read, that alone
end it in the same way, and behind which reading starts again. -/
structure State.Takes (s : State) (seg : List Token) (a : Attempt) (rest : List Token) :
    Prop where
  plain : ∀ t ∈ seg, t.kind ≠ .endOfText
  alone : s.attempts seg = [a]
  boundary : IsBoundary seg rest
  behind : s.attempts (beforeEnd (seg ++ rest)) = a :: LoxScript.attempts rest

theorem beforeEnd_eq_nil {ts : List Token} (hts : ∀ t ∈ ts.head?, t.kind = .endOfText) :
    beforeEnd ts = [] := by
  cases ts with
  | nil => rfl
  | cons t ts => exact beforeEnd_cons_of_eq (hts t rfl) ts

theorem attempts_eq_nil {ts : List Token} (hts : ∀ t ∈ ts.head?, t.kind = .endOfText) :
    attempts ts = [] := by
  rw [attempts, beforeEnd_eq_nil hts]
  rfl

/-- Where the tokens end, nothing is taken. -/
theorem takes_of_map_head? {s : State} {ts rest : List Token} {a : Attempt}
    (hts : ∀ t ∈ ts.head?, t.kind = .endOfText)
    (h : s.finish.head?.map (·, ts) = some (a, rest)) : ts = [] ++ rest ∧ s.Takes [] a rest := by
  obtain ⟨hfinish, rfl⟩ := finish_of_map_head? h
  have halone : s.finish = [a] := by
    rcases finish_cases s with rfl | rfl | ⟨err, herr⟩
    · cases hfinish
    · cases hfinish
    · rw [herr] at hfinish
      obtain rfl := Option.some.inj hfinish
      exact herr
  refine ⟨rfl, by simp, halone, .inr fun t ht => .inr (hts t ht), ?_⟩
  rw [List.nil_append, beforeEnd_eq_nil hts, attempts_eq_nil hts]
  exact halone

section Token

variable {s : State} {t : Token} (hend : t.kind ≠ .endOfText)
include hend

theorem attempts_beforeEnd_cons (ts : List Token) :
    s.attempts (beforeEnd (t :: ts))
      = (s.read t).attempts ++ (s.read t).state.attempts (beforeEnd ts) := by
  rw [beforeEnd_cons_of_ne hend]
  rfl

/-- A token with which the attempt goes on belongs to what it takes. -/
theorem State.Takes.cons {s' : State} {seg rest : List Token} {a : Attempt}
    (hread : s.read t = ⟨[], s'⟩) (h : s'.Takes seg a rest) : s.Takes (t :: seg) a rest := by
  refine ⟨List.forall_mem_cons.2 ⟨hend, h.plain⟩, ?_, h.boundary.cons t, ?_⟩
  · rw [State.attempts, hread]
    exact h.alone
  · rw [List.cons_append, attempts_beforeEnd_cons hend, hread]
    exact h.behind

/-- The `;` of a statement is the last token that is taken. -/
theorem takes_of_ends {stmt : Stmt} (hsemi : t.kind = .semicolon)
    (hread : s.read t = ⟨[.ok stmt], .fresh⟩) (ts : List Token) :
    s.Takes [t] (.ok stmt) ts := by
  refine ⟨List.forall_mem_singleton.2 hend, ?_, .inl ⟨t, rfl, hsemi⟩, ?_⟩
  · rw [State.attempts, hread]
    rfl
  · rw [List.singleton_append, attempts_beforeEnd_cons hend, hread]
    rfl

/-- A token that is the error is gone, and the search starts behind it. -/
theorem takes_of_taken {e : SyntaxError} (hread : s.read t = ⟨[.error e], .skipping⟩)
    {seg ts : List Token} (hsplit : ts = seg ++ resume ts) (hseg : IsSkipped seg (resume ts)) :
    s.Takes (t :: seg) (.error e) (resume ts) := by
  refine ⟨List.forall_mem_cons.2 ⟨hend, hseg.plain⟩, ?_, hseg.boundary.cons t, ?_⟩
  · rw [State.attempts, hread, hseg.silent]
    rfl
  · rw [List.cons_append, attempts_beforeEnd_cons hend, hread, ← hsplit, attempts_resume]
    rfl

/-- From a token that only shows the error the search starts with that token,
and it may end there. -/
theorem takes_of_shown {e : SyntaxError} (hread : s.read t = failBefore e t)
    (hfinish : s.finish = [.error e]) {seg ts : List Token}
    (hsplit : t :: ts = seg ++ resume (t :: ts)) (hseg : IsSkipped seg (resume (t :: ts))) :
    s.Takes seg (.error e) (resume (t :: ts)) := by
  have hattempts : ∀ us, s.attempts (t :: us) = .error e :: State.skipping.attempts (t :: us) := by
    intro us
    rw [State.attempts, hread]
    rfl
  refine ⟨hseg.plain, ?_, hseg.boundary, ?_⟩
  · cases seg with
    | nil => exact hfinish
    | cons u seg =>
      obtain ⟨rfl, -⟩ := List.cons.inj hsplit
      rw [hattempts, hseg.silent]
  · rw [← hsplit, attempts_resume, beforeEnd_cons_of_ne hend, hattempts]

end Token

/-- **One attempt** takes tokens up to where the next one starts. -/
theorem exists_takes {s : State} (hs : s ≠ .skipping) {ts rest : List Token} {a : Attempt}
    (h : s.next? ts = some (a, rest)) : ∃ seg, ts = seg ++ rest ∧ s.Takes seg a rest := by
  -- on the tokens; the state changes with each that the attempt goes on with
  induction ts generalizing s with
  | nil => exact ⟨[], takes_of_map_head? (by simp) h⟩
  | cons t ts ih =>
    rw [State.next?] at h
    by_cases hend : t.kind = .endOfText
    · rw [if_pos hend] at h
      refine ⟨[], takes_of_map_head? ?_ h⟩
      intro u hu
      obtain rfl := Option.some.inj hu
      exact hend
    · rw [if_neg hend] at h
      have heffect := effect_read hs t
      generalize hread : s.read t = r at h heffect
      cases heffect with
      | @goes s' hinside =>
        obtain ⟨seg, hsplit, htakes⟩ := ih (State.ne_skipping hinside) h
        exact ⟨t :: seg, congrArg (t :: ·) hsplit, htakes.cons hend hread⟩
      | @ends stmt hsemi =>
        obtain ⟨rfl, rfl⟩ := Prod.mk.inj (Option.some.inj h)
        exact ⟨[t], rfl, takes_of_ends hend hsemi hread ts⟩
      | @taken e hawaits =>
        obtain ⟨rfl, rfl⟩ := Prod.mk.inj (Option.some.inj h)
        rw [if_pos hawaits]
        obtain ⟨seg, hsplit, hseg⟩ := exists_isSkipped ts
        exact ⟨t :: seg, congrArg (t :: ·) hsplit, takes_of_taken hend hread hsplit hseg⟩
      | @shown e hawaits hfinish =>
        obtain ⟨rfl, rfl⟩ := Prod.mk.inj (Option.some.inj h)
        rw [if_neg (by rw [hawaits]; decide)]
        obtain ⟨seg, hsplit, hseg⟩ := exists_isSkipped (t :: ts)
        exact ⟨seg, hsplit, takes_of_shown hend hread hfinish hsplit hseg⟩

theorem isSome_finish {s : State} (hs : s.isInside) : s.finish.head?.isSome := by
  rcases finish_cases s with rfl | rfl | ⟨err, herr⟩
  · cases hs
  · cases hs
  · rw [herr]
    rfl

/-- In the middle of a statement there is always an attempt. -/
theorem isSome_next? {s : State} (hs : s.isInside) (ts : List Token) : (s.next? ts).isSome := by
  induction ts generalizing s with
  | nil => rw [State.next?, Option.isSome_map]; exact isSome_finish hs
  | cons t ts ih =>
    rw [State.next?]
    by_cases hend : t.kind = .endOfText
    · rw [if_pos hend, Option.isSome_map]
      exact isSome_finish hs
    · rw [if_neg hend]
      have heffect := effect_read (State.ne_skipping hs) t
      generalize s.read t = r at heffect
      cases heffect with
      | goes hinside => exact ih hinside
      | ends _ | taken _ | shown _ _ => rfl

/-- Between two statements there is one if anything is left to read. -/
theorem endOfText_of_next?_eq_none {ts : List Token} (h : State.fresh.next? ts = none) :
    ∀ t ∈ ts.head?, t.kind = .endOfText := by
  cases ts with
  | nil => simp
  | cons t ts =>
    intro u hu
    obtain rfl := Option.some.inj hu
    by_contra hend
    rw [State.next?, if_neg hend] at h
    have heffect := effect_read State.fresh_ne_skipping t
    generalize State.fresh.read t = r at h heffect
    cases heffect with
    | @goes s' hinside =>
      have hsome := isSome_next? hinside ts
      rw [show s'.next? ts = none from h] at hsome
      cases hsome
    | ends _ | taken _ | shown _ _ => cases h

/-! ## §4. All attempts. -/

/-- The segment of an attempt, in front of the tokens behind it.  Its
statement is spelled by the segment, its error is about a token of it. -/
structure IsSegment (seg : List Token) (a : Attempt) (rest : List Token) : Prop where
  next : State.fresh.next? (seg ++ rest) = some (a, rest)
  nonempty : seg ≠ []
  plain : ∀ t ∈ seg, t.kind ≠ .endOfText
  alone : attempts seg = [a]
  spelled : ∀ stmt, a = .ok stmt → IsProgram [stmt] seg
  blamed : ∀ e, a = .error e → e.IsAbout (· ∈ seg)
  boundary : IsBoundary seg rest

/-- Attempts one after another, up to where nothing is left to read. -/
inductive Segments : List Token → List (List Token × Attempt) → List Token → Prop where
  | done {rest : List Token} : (∀ t ∈ rest.head?, t.kind = .endOfText) → Segments rest [] rest
  | attempt {seg ts rest : List Token} {a : Attempt} {pieces : List (List Token × Attempt)} :
      IsSegment seg a ts → Segments ts pieces rest → Segments (seg ++ ts) ((seg, a) :: pieces) rest

theorem IsSegment.exists_line {seg rest : List Token} {a : Attempt} (h : IsSegment seg a rest)
    {e : SyntaxError} (he : e ∈ (errorOf? a).toList) : ∃ t ∈ seg, e.line = t.line := by
  cases a with
  | ok stmt => cases he
  | error e' =>
    obtain rfl := List.mem_singleton.1 he
    cases h.blamed e rfl with
    | @stray t ht _ => exact ⟨t, ht, rfl⟩
    | @missing _ t _ ht => exact ⟨t, ht, rfl⟩

/-- The errors among attempts. -/
def errorsOf (pieces : List (List Token × Attempt)) : List SyntaxError :=
  pieces.filterMap fun x => errorOf? x.2

theorem errorsOf_cons (seg : List Token) (a : Attempt) (pieces : List (List Token × Attempt)) :
    errorsOf ((seg, a) :: pieces) = (errorOf? a).toList ++ errorsOf pieces := by
  unfold errorsOf
  cases a <;> rfl

/-- **An attempt at a statement** takes a segment. -/
theorem exists_isSegment {ts rest : List Token} {a : Attempt}
    (h : State.fresh.next? ts = some (a, rest)) :
    ∃ seg, ts = seg ++ rest ∧ IsSegment seg a rest ∧ attempts ts = a :: attempts rest := by
  obtain ⟨seg, rfl, hplain, halone, hboundary, hbehind⟩ := exists_takes State.fresh_ne_skipping h
  refine ⟨seg, rfl, ⟨h, ?_, hplain, ?_, ?_, ?_, hboundary⟩, hbehind⟩
  · -- without a token there is no attempt
    rintro rfl
    cases halone
  · rw [attempts, beforeEnd_of_ne hplain]
    exact halone
  · rintro stmt rfl
    have hfresh : State.fresh.Reads [] := rfl
    exact isProgram_of_attempts (p := [stmt]) hfresh halone
  · rintro e rfl
    refine attempts_isAbout (s := .fresh) trivial (fun _ ht => ht) e ?_
    rw [halone]
    exact List.mem_singleton_self _

namespace Segments

variable {ts rest : List Token} {pieces : List (List Token × Attempt)}

theorem flatten (h : Segments ts pieces rest) : ts = (pieces.map Prod.fst).flatten ++ rest := by
  induction h with
  | done _ => rfl
  | attempt _ _ ih => rw [List.map_cons, List.flatten_cons, List.append_assoc, ← ih]

theorem stop (h : Segments ts pieces rest) : ∀ t ∈ rest.head?, t.kind = .endOfText := by
  induction h with
  | done hrest => exact hrest
  | attempt _ _ ih => exact ih

theorem plain (h : Segments ts pieces rest) :
    ∀ t ∈ (pieces.map Prod.fst).flatten, t.kind ≠ .endOfText := by
  induction h with
  | done _ => simp
  | attempt hseg _ ih =>
    rw [List.map_cons, List.flatten_cons, List.forall_mem_append]
    exact ⟨hseg.plain, ih⟩

/-- Every error has the line of a token that was read. -/
theorem exists_line (h : Segments ts pieces rest) :
    ∀ e ∈ errorsOf pieces, ∃ t ∈ (pieces.map Prod.fst).flatten, e.line = t.line := by
  induction h with
  | done _ => simp [errorsOf]
  | @attempt seg _ _ a pieces hseg _ ih =>
    intro e he
    rw [List.map_cons, List.flatten_cons]
    rw [errorsOf_cons] at he
    rcases List.mem_append.1 he with hfirst | hlater
    · obtain ⟨t, ht, hline⟩ := hseg.exists_line hfirst
      exact ⟨t, List.mem_append_left _ ht, hline⟩
    · obtain ⟨t, ht, hline⟩ := ih e hlater
      exact ⟨t, List.mem_append_right _ ht, hline⟩

/-- Errors come in the order of the tokens that they are about. -/
theorem ordered (h : Segments ts pieces rest)
    (hlines : (pieces.map Prod.fst).flatten.Pairwise fun t u => t.line ≤ u.line) :
    (errorsOf pieces).Pairwise fun e f => e.line ≤ f.line := by
  induction h with
  | done _ => exact .nil
  | @attempt seg _ _ a pieces hseg hrest ih =>
    rw [List.map_cons, List.flatten_cons, List.pairwise_append] at hlines
    obtain ⟨-, hlater, hacross⟩ := hlines
    rw [errorsOf_cons, List.pairwise_append]
    refine ⟨?_, ih hlater, ?_⟩
    · cases a with
      | ok stmt => exact .nil
      | error e => exact List.pairwise_singleton _ e
    · intro e he f hf
      obtain ⟨t, ht, hline⟩ := hseg.exists_line he
      obtain ⟨u, hu, hline'⟩ := hrest.exists_line f hf
      rw [hline, hline']
      exact hacross t ht u hu

end Segments

end Reader

/-! ## §5. Parses. -/

/-- The statements among attempts. -/
def Reader.statementsOf (pieces : List (List Token × Attempt)) : List Stmt :=
  pieces.filterMap fun x => x.2.toOption

namespace Parser
open Reader

/-- The cursor behind a turn stands where the next attempt starts. -/
theorem rest_of_turn {p : Parser} {seg rest : List Token} (h : p.rest = seg ++ rest)
    (errors : List SyntaxError) :
    (⟨p.tokens, p.tokens.length - rest.length, errors⟩ : Parser).rest = rest := by
  have htokens : p.tokens = p.tokens.take p.current ++ seg ++ rest := by
    rw [List.append_assoc, ← h]
    exact (List.take_append_drop _ _).symm
  show p.tokens.drop (p.tokens.length - rest.length) = rest
  generalize p.tokens.take p.current ++ seg = us at htokens
  rw [htokens, List.length_append, Nat.add_sub_cancel, List.drop_left]

/-- What turns come to, from wherever the cursor stands. -/
structure TurnsTo (p : Parser) (pieces : List (List Token × Attempt)) (stmts : List Stmt)
    (q : Parser) : Prop where
  tokens : q.tokens = p.tokens
  bound : q.current ≤ p.tokens.length
  segments : Segments p.rest pieces q.rest
  attempts : pieces.map Prod.snd = LoxScript.attempts p.rest
  errors : q.errors = p.errors ++ errorsOf pieces
  stmts : stmts = statementsOf pieces

/-- No turn is left. -/
theorem turnsTo_of_turn?_eq_none {p : Parser} (h : p.turn? = none)
    (hp : p.current ≤ p.tokens.length) : p.TurnsTo [] [] p := by
  have hstop := endOfText_of_next?_eq_none (Option.map_eq_none_iff.1 h)
  exact ⟨rfl, hp, .done hstop, (attempts_eq_nil hstop).symm, (List.append_nil _).symm, rfl⟩

/-- **One turn**, and the turns after it. -/
theorem TurnsTo.cons {p p' q : Parser} {a : Attempt} {pieces : List (List Token × Attempt)}
    {stmts : List Stmt} (h : p.turn? = some (a, p')) (hrest : p'.TurnsTo pieces stmts q) :
    ∃ seg, p.TurnsTo ((seg, a) :: pieces) (a.toOption.toList ++ stmts) q := by
  obtain ⟨rest, hnext, rfl⟩ := turn?_eq_some_iff.1 h
  obtain ⟨seg, hsplit, hseg, hattempts⟩ := exists_isSegment hnext
  obtain ⟨htokens, hbound, hsegments, hafter, herrors, hstmts⟩ := hrest
  rw [rest_of_turn hsplit] at hsegments hafter
  refine ⟨seg, htokens, hbound, ?_, ?_, ?_, ?_⟩
  · rw [hsplit]
    exact .attempt hseg hsegments
  · rw [List.map_cons, hafter, hattempts]
  · rw [herrors, errorsOf_cons, List.append_assoc]
  · rw [hstmts]
    cases a <;> rfl

/-- **All turns**: the tokens that are left are cut into segments. -/
theorem exists_turnsTo (p : Parser) (hp : p.current ≤ p.tokens.length) :
    ∃ pieces, p.TurnsTo pieces p.turns.1 p.turns.2 := by
  -- on the turns; each leaves fewer tokens
  fun_induction Parser.turns p with
  | case1 p h => exact ⟨[], turnsTo_of_turn?_eq_none h hp⟩
  | case2 p a p' h stmts q hq ih =>
    have hp' : p'.current ≤ p'.tokens.length := by
      obtain ⟨rest, -, rfl⟩ := turn?_eq_some_iff.1 h
      exact Nat.sub_le _ _
    obtain ⟨pieces, hrest⟩ := ih hp'
    rw [hq] at hrest
    obtain ⟨seg, hturns⟩ := hrest.cons h
    exact ⟨(seg, a) :: pieces, hturns⟩

theorem parse_snd (p : Parser) : p.parse.2 = (ofTokens p.tokens).turns.2 := by
  unfold parse
  dsimp only
  split <;> rfl

theorem parse_of_nil {p : Parser} (h : p.parse.2.errors = []) :
    p.parse.1 = .ok (ofTokens p.tokens).turns.1 := by
  rw [parse_snd] at h
  unfold parse
  dsimp only
  rw [h]

theorem parse_of_cons {p : Parser} {e : SyntaxError} {es : List SyntaxError}
    (h : p.parse.2.errors = e :: es) : p.parse.1 = .error ⟨e, e :: es⟩ := by
  rw [parse_snd] at h
  unfold parse
  dsimp only
  rw [h]

/-- Without an error every attempt is a statement. -/
theorem map_snd_eq_map_ok {pieces : List (List Token × Attempt)} (h : errorsOf pieces = []) :
    pieces.map Prod.snd = (statementsOf pieces).map .ok := by
  have hok : ∀ a ∈ pieces.map Prod.snd, ∃ stmt, a = .ok stmt := by
    intro a ha
    obtain ⟨x, hx, rfl⟩ := List.mem_map.1 ha
    have hnone := List.filterMap_eq_nil_iff.1 h x hx
    cases hresult : x.2 with
    | ok stmt => exact ⟨stmt, rfl⟩
    | error e =>
      rw [hresult] at hnone
      cases hnone
  refine (eq_map_ok hok).trans ?_
  rw [List.filterMap_map]
  rfl

/-- A parse: how the tokens are cut, what it gives, and the parser after it. -/
structure Parses (p : Parser) (pieces : List (List Token × Attempt))
    (result : Except Rejection (List Stmt)) (q : Parser) : Prop where
  tokens : q.tokens = p.tokens
  /-- The cursor stands at the first end token, or behind the list. -/
  bound : q.current ≤ p.tokens.length
  stop : ∀ t ∈ p.tokens[q.current]?, t.kind = .endOfText
  plain : ∀ t ∈ p.tokens.take q.current, t.kind ≠ .endOfText
  /-- The tokens before it are the segments of the attempts. -/
  cut : p.tokens.take q.current = (pieces.map Prod.fst).flatten
  segments : Segments p.tokens pieces q.rest
  attempts : pieces.map Prod.snd = LoxScript.attempts p.tokens
  errors : q.errors = errorsOf pieces
  /-- Without an error the statements are given, else the first error and all. -/
  accepted : q.errors = [] → result = .ok (statementsOf pieces)
    ∧ pieces.map Prod.snd = (statementsOf pieces).map .ok
  rejected : ∀ e es, q.errors = e :: es → result = .error ⟨e, e :: es⟩
  ordered : (p.tokens.take q.current).Pairwise (fun t u => t.line ≤ u.line) →
    q.errors.Pairwise fun e f => e.line ≤ f.line

/-- **A PARSE COMES TO AN END, AND ITS ATTEMPTS PARTITION THE TOKENS.**  This is
so for any list of tokens, wherever an earlier parse has left the cursor and
whatever errors it has left. -/
theorem exists_parses (p : Parser) : ∃ pieces, p.Parses pieces p.parse.1 p.parse.2 := by
  obtain ⟨pieces, htokens, hbound, hsegments, hattempts, herrors, hstmts⟩ :=
    exists_turnsTo (ofTokens p.tokens) (Nat.zero_le _)
  rw [← parse_snd p] at htokens hbound hsegments herrors
  rw [show (ofTokens p.tokens).rest = p.tokens from rfl] at hsegments hattempts
  have hcut : p.tokens.take p.parse.2.current = (pieces.map Prod.fst).flatten := by
    have hrest : p.parse.2.rest = p.tokens.drop p.parse.2.current := by
      rw [rest, htokens]
      rfl
    have hall : p.tokens.take p.parse.2.current ++ p.parse.2.rest
        = (pieces.map Prod.fst).flatten ++ p.parse.2.rest := by
      rw [← hsegments.flatten, hrest]
      exact List.take_append_drop _ _
    exact List.append_cancel_right hall
  have herrors' : p.parse.2.errors = errorsOf pieces := herrors
  refine ⟨pieces, htokens, hbound, ?_, ?_, hcut, hsegments, hattempts, herrors', ?_, ?_, ?_⟩
  · have hstop := hsegments.stop
    rw [rest, htokens, List.head?_drop] at hstop
    exact hstop
  · rw [hcut]
    exact hsegments.plain
  · intro hnil
    rw [parse_of_nil hnil, hstmts]
    exact ⟨rfl, map_snd_eq_map_ok (herrors'.symm.trans hnil)⟩
  · intro e es hcons
    exact parse_of_cons hcons
  · intro hlines
    rw [herrors']
    rw [hcut] at hlines
    exact hsegments.ordered hlines

/-- Behind the stray `;` of `print ;` the next `var` is read; the cursor and the
error of an earlier parse are forgotten, and the token behind the end token is
not read. -/
example :
    let p := (Parser.mk [bare .wordPrint, bare .semicolon, bare .wordVar, bare .identifier,
      bare .semicolon, bare .wordNil, bare .wordNil, bare .endOfText, bare .wordNil] 9
      [⟨.missingName, 1⟩]).parse.2
    (p.current, p.errors) = (7, [⟨.strayToken "SEMICOLON", 1⟩, ⟨.unclosedExpression, 1⟩]) := by
  cbv

end Parser
end LoxScript
