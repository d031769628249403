/-
  LoxScript.Proofs.Run.Relaid
  ────────────────────────────────
  The same lexemes in another layout run alike.

  Two texts of which the tokens have the same kinds and lexemes differ in
  gaps alone.  Their tokens have the same literals too, for a literal is a
  function of kind and lexeme.  So they agree in all but their lines, and
  the stages keep it so:

      reading     — asks for kinds only (`programOf_matches`)
      executing   — never asks for a line (`execute_mapLine`)
      reporting   — writes down the line, and nothing else depends on it
-/
import LoxScript.Proofs.Lines
import LoxScript.Proofs.Reader.Kinds
import LoxScript.Proofs.Run.Joined
import LoxScript.Proofs.Scan.Layout

namespace LoxScript

/-! ## §1. Tokens. -/

/-- Tokens that differ in nothing but their lines. -/
def Token.SameText (t u : Token) : Prop := t.mapLine nowhere = u.mapLine nowhere

theorem Token.SameText.kind_eq (t u : Token) (h : t.SameText u) : t.kind = u.kind :=
  ((Token.mapLine_nowhere_eq_iff t u).1 h).1

/-- The literal of a scanned token is that of its kind and lexeme. -/
theorem literal_of_tokensOf {source : String} {tokens : List Token}
    (h : tokensOf source = .ok tokens) :
    ∀ t ∈ tokens, t.literal = literalOf t.kind t.lexeme.toList :=
  forall_mem_of_tokensOf h (fun _ ht => ht.literal_eq) fun _ => rfl

/-- Scanned tokens of the same kinds and lexemes differ in their lines alone. -/
theorem sameText_of_tokensOf {a b : String} {ts us : List Token} (ha : tokensOf a = .ok ts)
    (hb : tokensOf b = .ok us)
    (h : ts.map (fun t => (t.kind, t.lexeme)) = us.map fun t => (t.kind, t.lexeme)) :
    List.Forall₂ Token.SameText ts us := by
  have hliterals := literal_of_tokensOf ha
  have hliterals' := literal_of_tokensOf hb
  clear ha hb
  induction ts generalizing us with
  | nil =>
    obtain rfl := List.map_eq_nil_iff.1 h.symm
    exact .nil
  | cons t ts ih =>
    obtain ⟨u, us, rfl, hfirst, hrest⟩ := List.map_eq_cons_iff.1 h.symm
    rw [List.forall_mem_cons] at hliterals hliterals'
    obtain ⟨hkind, hlexeme⟩ := Prod.mk.inj hfirst
    refine .cons ?_ (ih hrest.symm hliterals.2 hliterals'.2)
    refine (Token.mapLine_nowhere_eq_iff t u).2 ⟨hkind.symm, hlexeme.symm, ?_⟩
    rw [hliterals.1, hliterals'.1, hkind, hlexeme]

/-! ## §2. Trees and errors. -/

theorem Expr.Matches.mapLine_eq {e e' : Expr} (h : e.Matches Token.SameText e') :
    e.mapLine nowhere = e'.mapLine nowhere := by
  induction h with
  | @literal t u htu =>
    rw [Expr.mapLine, Expr.mapLine, ((Token.mapLine_nowhere_eq_iff t u).1 htu).2.2]
  | paren _ ih => rw [Expr.mapLine, Expr.mapLine, ih]
  | unary hop _ ih => rw [Expr.mapLine, Expr.mapLine, hop, ih]
  | binary _ hop _ ihl ihr => rw [Expr.mapLine, Expr.mapLine, ihl, hop, ihr]
  | name htu => rw [Expr.mapLine, Expr.mapLine, htu]
  | assign htu _ ih => rw [Expr.mapLine, Expr.mapLine, htu, ih]

theorem Stmt.Matches.mapLine_eq {s s' : Stmt} (h : s.Matches Token.SameText s') :
    s.mapLine nowhere = s'.mapLine nowhere := by
  cases h with
  | expression he | print he => rw [Stmt.mapLine, Stmt.mapLine, he.mapLine_eq]
  | declare htu => rw [Stmt.mapLine, Stmt.mapLine, htu]
  | declareWith htu he =>
    rw [Stmt.mapLine, Stmt.mapLine, htu, Option.map_some, Option.map_some, he.mapLine_eq]

theorem map_mapLine_eq {p q : List Stmt} (h : List.Forall₂ (Stmt.Matches Token.SameText) p q) :
    p.map (Stmt.mapLine nowhere) = q.map (Stmt.mapLine nowhere) := by
  induction h with
  | nil => rfl
  | cons hs _ ih => rw [List.map_cons, List.map_cons, hs.mapLine_eq, ih]

theorem SyntaxError.Matches.mapLine_eq {e e' : SyntaxError} (h : e.Matches Token.SameText e') :
    e.mapLine nowhere = e'.mapLine nowhere := by
  cases h with
  | @stray t u htu =>
    rw [SyntaxError.mapLine, SyntaxError.mapLine,
      ((Token.mapLine_nowhere_eq_iff t u).1 htu).2.1]
    rfl
  | missing _ _ => rfl

/-! ## §3. Runs. -/

/-- Problems of one class, code and wording.  Their lines apart, nothing tells
them from each other. -/
structure Problem.SaysSame (p q : Problem) : Prop where
  className : p.className = q.className
  code : p.code? = q.code?
  message : p.message = q.message
  content : p.mapLine nowhere = q.mapLine nowhere

theorem Problem.saysSame_of_mapLine {p q : Problem}
    (h : p.mapLine nowhere = q.mapLine nowhere) : p.SaysSame q := by
  refine ⟨?_, ?_, ?_, h⟩
  · rw [← Problem.className_mapLine nowhere p, h, Problem.className_mapLine]
  · rw [← Problem.code?_mapLine nowhere p, h, Problem.code?_mapLine]
  · rw [← Problem.message_mapLine nowhere p, h, Problem.message_mapLine]

/-- The same status and problems that say the same, or the same misuse. -/
inductive SameOutcome : Except Misuse Outcome → Except Misuse Outcome → Prop where
  | misuse {m : Misuse} : SameOutcome (.error m) (.error m)
  | outcome {o o' : Outcome} : o.status = o'.status →
      List.Forall₂ Problem.SaysSame o.problems o'.problems → SameOutcome (.ok o) (.ok o')

/-- Runs that print the same, end alike and leave the same scopes behind. -/
structure Run.Agrees (r r' : Run) : Prop where
  signals : signalsOf .program r.events = signalsOf .program r'.events
  chain : r.chain = r'.chain
  outcome : SameOutcome r.outcome r'.outcome

/-- What is wrong with tokens that are no program. -/
theorem compile_eq_error_of_programOf {source : String} {tokens : List Token}
    {es : List SyntaxError} (h : tokensOf source = .ok tokens)
    (herr : programOf tokens = .error es) :
    (compile source).2 = .error (es.map .parse) := by
  unfold compile
  rw [h]
  dsimp only
  rw [herr]

theorem signalsOf_run_of_error {source : String} {ps : List Problem}
    (h : (compile source).2 = .error ps) (c : Chain) :
    signalsOf .program (run source c).events = [] :=
  (isIdle_run ((isMalformed_iff source).2 ⟨ps, h⟩) c).silent

/-- Failures that agree but for their lines make for the same outcome. -/
theorem sameOutcome_outcomeOf {result result' : Except Failure Unit}
    (h : result.mapError (Failure.mapLine nowhere)
      = result'.mapError (Failure.mapLine nowhere)) :
    SameOutcome (outcomeOf result) (outcomeOf result') := by
  cases result with
  | ok u =>
    cases result' with
    | ok u' => exact .outcome rfl .nil
    | error f => cases h
  | error f =>
    cases result' with
    | ok u' => cases h
    | error f' =>
      have hf : f.mapLine nowhere = f'.mapLine nowhere := Except.error.inj h
      cases f with
      | error e =>
        cases f' with
        | error e' =>
          have he : (Problem.evaluate e).mapLine nowhere = (Problem.evaluate e').mapLine nowhere :=
            congrArg Problem.evaluate (Failure.error.inj hf)
          exact .outcome rfl (.cons (Problem.saysSame_of_mapLine he) .nil)
        | misuse m => cases hf
      | misuse m =>
        cases f' with
        | error e' => cases hf
        | misuse m' =>
          obtain rfl : m = m' := Failure.misuse.inj hf
          exact .misuse

/-- Programs that agree but for their lines run alike. -/
theorem agrees_of_compile {a b : String} {p q : List Stmt} (ha : (compile a).2 = .ok p)
    (hb : (compile b).2 = .ok q)
    (h : p.map (Stmt.mapLine nowhere) = q.map (Stmt.mapLine nowhere)) (c : Chain) :
    (run a c).Agrees (run b c) := by
  obtain ⟨hsignals, hchain, houtcome⟩ := run_program ha c
  obtain ⟨hsignals', hchain', houtcome'⟩ := run_program hb c
  have hexecute : (execute p c).mapLine nowhere = (execute q c).mapLine nowhere := by
    rw [← execute_mapLine, h, execute_mapLine]
  obtain ⟨hevents, hresult, hscopes⟩ := Execution.mk.inj hexecute
  refine ⟨?_, ?_, ?_⟩
  · rw [hsignals, hsignals', hevents]
  · rw [hchain, hchain', hscopes]
  · rw [houtcome, houtcome']
    exact sameOutcome_outcomeOf hresult

/-- **LAYOUT NEVER CHANGES BEHAVIOUR.**  Texts that are scanned to the same
kinds and lexemes print the same, end with the same status and problems that
say the same, and leave the same scopes behind. -/
theorem run_agrees_of_tokensOf {a b : String} {ts us : List Token} (ha : tokensOf a = .ok ts)
    (hb : tokensOf b = .ok us)
    (h : ts.map (fun t => (t.kind, t.lexeme)) = us.map fun t => (t.kind, t.lexeme)) (c : Chain) :
    (run a c).Agrees (run b c) := by
  -- both are programs that agree but for their lines, or both have errors that do
  have hmatches := programOf_matches Token.SameText.kind_eq (sameText_of_tokensOf ha hb h)
  generalize hp : programOf ts = p, hq : programOf us = q at hmatches
  cases hmatches with
  | ok hstmts =>
    have hcompile := (compile_eq_ok_iff_tokensOf a _).2 ⟨ts, ha, hp⟩
    have hcompile' := (compile_eq_ok_iff_tokensOf b _).2 ⟨us, hb, hq⟩
    exact agrees_of_compile hcompile hcompile' (map_mapLine_eq hstmts) c
  | error herrors =>
    have hcompile := compile_eq_error_of_programOf ha hp
    have hcompile' := compile_eq_error_of_programOf hb hq
    refine ⟨?_, ?_, ?_⟩
    · rw [signalsOf_run_of_error hcompile, signalsOf_run_of_error hcompile']
    · rw [run_of_error hcompile, run_of_error hcompile']
    · rw [run_of_error hcompile, run_of_error hcompile']
      refine .outcome rfl ?_
      rw [List.forall₂_map_left_iff, List.forall₂_map_right_iff]
      refine herrors.imp ?_
      intro e e' he
      exact Problem.saysSame_of_mapLine (congrArg Problem.parse he.mapLine_eq)

/-- A text on one line, and on three lines with a comment: the second
statement fails on line 1 and on line 3. -/
theorem run_agrees_of_tokensOf_commented :
    tokensOf "print nil;b;" = .ok
        [⟨.wordPrint, "print", .nil, 1⟩, ⟨.wordNil, "nil", .nil, 1⟩, ⟨.semicolon, ";", .nil, 1⟩,
         ⟨.identifier, "b", .name "b", 1⟩, ⟨.semicolon, ";", .nil, 1⟩, endToken 1]
      ∧ tokensOf "print// c\nnil;\nb ;" = .ok
        [⟨.wordPrint, "print", .nil, 1⟩, ⟨.wordNil, "nil", .nil, 2⟩, ⟨.semicolon, ";", .nil, 2⟩,
         ⟨.identifier, "b", .name "b", 3⟩, ⟨.semicolon, ";", .nil, 3⟩, endToken 3]
      ∧ (run "print nil;b;" Chain.empty).Agrees (run "print// c\nnil;\nb ;" Chain.empty) := by
  have hcut : cut "print nil;b;".toList
      = ⟨[.lexeme .wordPrint "print".toList, .gap [' '], .lexeme .wordNil "nil".toList,
          .lexeme .semicolon [';'], .lexeme .identifier ['b'], .lexeme .semicolon [';']],
          .finished⟩ := by
    cbv
  have hcut' : cut "print// c\nnil;\nb ;".toList
      = ⟨[.lexeme .wordPrint "print".toList, .gap "// c".toList, .gap ['\n'],
          .lexeme .wordNil "nil".toList, .lexeme .semicolon [';'], .gap ['\n'],
          .lexeme .identifier ['b'], .gap [' '], .lexeme .semicolon [';']], .finished⟩ := by
    cbv
  have htokens := (tokensOf_eq_ok_iff "print nil;b;" _).2 ⟨by rw [hcut], by rw [hcut]⟩
  have htokens' := (tokensOf_eq_ok_iff "print// c\nnil;\nb ;" _).2
    ⟨by rw [hcut'], by rw [hcut']⟩
  exact ⟨htokens, htokens', run_agrees_of_tokensOf htokens htokens' rfl Chain.empty⟩

end LoxScript
