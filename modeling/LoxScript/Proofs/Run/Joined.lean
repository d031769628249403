/-
  LoxScript.Proofs.Run.Joined
  ────────────────────────────────
  A session of programs is one script.

  Three laws of composition meet at a line break.  No piece of a text reaches
  over it, so the tokens of the joined text are those of its parts, the later
  ones further down (`place_append`, `place_add`).  Programs one after
  another are a program (`IsProgram.append`).  And the statements of the
  second part start in the scopes that the first part leaves (`execute_append`):

      run (a ⏎ b) c   =   run a c,  then  run b  in the scopes after it

  but for the lines of `b`, which are lower by those of `a`.
-/
import LoxScript.Proofs.Reader.Completeness
import LoxScript.Proofs.Reader.Soundness
import LoxScript.Proofs.Relocation
import LoxScript.Proofs.Run.Session
import LoxScript.Proofs.Scan.Continuation
import LoxScript.Proofs.Scan.Partition

namespace LoxScript

/-! ## §1. Programs one after another. -/

theorem SpellsAll.append {p q : List Stmt} {ts us : List Token} (hp : SpellsAll p ts)
    (hq : SpellsAll q us) : SpellsAll (p ++ q) (ts ++ us) := by
  induction hp with
  | nil => exact hq
  | cons hs _ ih =>
    rw [List.append_assoc]
    exact .cons hs ih

theorem IsProgram.append {p q : List Stmt} {ts us : List Token} (hp : IsProgram p ts)
    (hq : IsProgram q us) : IsProgram (p ++ q) (ts ++ us) :=
  ⟨hp.spells.append hq.spells, List.forall_mem_append.2 ⟨hp.shaped, hq.shaped⟩⟩

/-- Statements after some that did not fail start in the scopes of those. -/
theorem execute_append {p : List Stmt} {c : Chain} (h : (execute p c).result = .ok ())
    (q : List Stmt) :
    execute (p ++ q) c
      = ⟨(execute p c).events ++ (execute q (execute p c).chain).events,
          (execute q (execute p c).chain).result, (execute q (execute p c).chain).chain⟩ := by
  induction p generalizing c with
  | nil => rfl
  | cons s p ih =>
    simp only [execute, List.cons_append] at h ⊢
    generalize s.execute c = first at h ⊢
    obtain ⟨es, result, c'⟩ := first
    cases result with
    | error f => cases h
    | ok u =>
      have hrest : (execute p c').result = .ok () := h
      simp only [ih hrest, List.append_assoc]

/-! ## §2. Texts one after another. -/

/-- Tokens in front of an end token are read as the program that they are. -/
theorem programOf_eq_ok_iff_isProgram {ts : List Token} (hts : ∀ t ∈ ts, t.kind ≠ .endOfText)
    (line : Nat) (p : List Stmt) :
    programOf (ts ++ [endToken line]) = .ok p ↔ IsProgram p ts := by
  have hend : ∀ t ∈ [endToken line].head?, t.kind = .endOfText := by simp [endToken]
  have hfresh : Reader.State.fresh.Reads [] := rfl
  rw [Reader.programOf_eq_ok_iff, attempts, Reader.beforeEnd_append hts hend]
  exact ⟨Reader.isProgram_of_attempts hfresh, Reader.attempts_of_isProgram⟩

theorem compile_eq_ok_iff_tokensOf (source : String) (p : List Stmt) :
    (compile source).2 = .ok p
      ↔ ∃ tokens, tokensOf source = .ok tokens ∧ programOf tokens = .ok p := by
  unfold compile
  cases tokensOf source with
  | error e => simp
  | ok tokens =>
    dsimp only
    cases hprogram : programOf tokens <;> simp [hprogram]

/-- A source text is a program if it is cut to its end and its lexemes are
one. -/
theorem compile_eq_ok_iff (source : String) (p : List Stmt) :
    (compile source).2 = .ok p ↔
      (cut source.toList).stop = .finished
        ∧ IsProgram p (place 1 (cut source.toList).pieces) := by
  rw [compile_eq_ok_iff_tokensOf]
  constructor
  · rintro ⟨tokens, htokens, hprogram⟩
    obtain ⟨hstop, rfl⟩ := (tokensOf_eq_ok_iff source tokens).1 htokens
    have hkinds := (partition_of_cut source.toList hstop 1).kind_ne_endOfText
    exact ⟨hstop, (programOf_eq_ok_iff_isProgram hkinds _ p).1 hprogram⟩
  · rintro ⟨hstop, hprogram⟩
    have hread := (programOf_eq_ok_iff_isProgram hprogram.kind_ne_endOfText
      (1 + source.toList.count '\n') p).2 hprogram
    exact ⟨_, (tokensOf_eq_ok_iff source _).2 ⟨hstop, rfl⟩, hread⟩

/-- **Compiling.**  Two programs with a line break between them are one
program, the second one further down. -/
theorem compile_join {a b : String} {p q : List Stmt} (ha : (compile a).2 = .ok p)
    (hb : (compile b).2 = .ok q) :
    (compile (a ++ "\n" ++ b)).2
      = .ok (p ++ q.map (Stmt.shift (a.toList.count '\n' + 1))) := by
  rw [compile_eq_ok_iff] at ha hb ⊢
  have htext : (a ++ "\n" ++ b).toList = a.toList ++ '\n' :: b.toList := by simp
  have hbreaks : Text.breaks (piecesText (cut a.toList).pieces) = a.toList.count '\n' := by
    have hcut := cut_text a.toList
    rw [ha.1, Stop.rest, List.append_nil] at hcut
    rw [hcut, Text.breaks]
  rw [htext, cut_append_break ha.1]
  refine ⟨hb.1, ?_⟩
  have hplace : place (1 + a.toList.count '\n') (.gap ['\n'] :: (cut b.toList).pieces)
      = (place 1 (cut b.toList).pieces).map (Token.shift (a.toList.count '\n' + 1)) := by
    rw [← place_add, place]
    rfl
  rw [place_append, hbreaks, hplace]
  exact ha.2.append (hb.2.shift _)

/-! ## §3. Runs one after another. -/

/-- An outcome of which all problems are `n` lines lower. -/
def Outcome.shift (n : Nat) (o : Outcome) : Outcome :=
  { o with problems := o.problems.map (Problem.shift n) }

theorem outcomeOf_mapError (n : Nat) (result : Except Failure Unit) :
    outcomeOf (result.mapError (Failure.shift n)) = (outcomeOf result).map (Outcome.shift n) := by
  match result with
  | .ok () => rfl
  | .error (.error e) => rfl
  | .error (.misuse m) => rfl

/-- A run that prints what was printed before and then what the last run
prints, and ends as that one does, `n` lines lower. -/
structure Run.Joins (n : Nat) (before : List Signal) (last whole : Run) : Prop where
  signals : signalsOf .program whole.events = before ++ signalsOf .program last.events
  chain : whole.chain = last.chain
  outcome : whole.outcome = last.outcome.map (Outcome.shift n)

theorem Outcome.shift_zero (o : Outcome) : o.shift 0 = o := by
  have hid : Problem.shift 0 = id := funext Problem.shift_zero
  rw [Outcome.shift, hid, List.map_id]

theorem Outcome.shift_shift (m n : Nat) (o : Outcome) : (o.shift m).shift n = o.shift (m + n) := by
  have hcomp : Problem.shift n ∘ Problem.shift m = Problem.shift (m + n) :=
    funext (Problem.shift_shift m n)
  simp only [Outcome.shift, List.map_map, hcomp]

theorem Run.Joins.refl (r : Run) : r.Joins 0 [] r := by
  refine ⟨rfl, rfl, ?_⟩
  cases r.outcome with
  | error m => rfl
  | ok o => rw [Except.map, Outcome.shift_zero]

theorem Run.Joins.trans {m n : Nat} {before before' : List Signal} {first second third : Run}
    (h : first.Joins m before second) (h' : second.Joins n before' third) :
    first.Joins (m + n) (before' ++ before) third := by
  refine ⟨?_, h'.chain.trans h.chain, ?_⟩
  · rw [h'.signals, h.signals, List.append_assoc]
  · rw [h'.outcome, h.outcome]
    cases first.outcome with
    | error e => rfl
    | ok o => rw [Except.map, Except.map, Except.map, Outcome.shift_shift]

/-- A finished run has executed all its statements. -/
theorem result_of_status? {source : String} {p : List Stmt} (h : (compile source).2 = .ok p)
    {c : Chain} (hfinished : (run source c).status? = some .finished) :
    (execute p c).result = .ok () := by
  rw [run_of_ok h, Run.status?, outcome_runProgram] at hfinished
  cases hresult : (execute p c).result with
  | ok u => rfl
  | error f =>
    rw [hresult] at hfinished
    cases f <;> cases hfinished

/-- What is observed of a program's run. -/
theorem run_program {source : String} {p : List Stmt} (h : (compile source).2 = .ok p)
    (c : Chain) :
    signalsOf .program (run source c).events = signalsOf .program (execute p c).events
      ∧ (run source c).chain = (execute p c).chain
      ∧ (run source c).outcome = outcomeOf (execute p c).result := by
  rw [run_of_ok h]
  refine ⟨?_, chain_runProgram p c, outcome_runProgram p c⟩
  show signals (· = .program) (_ ++ _) = _
  rw [signals_append, signals_compile]
  exact signalsOf_runProgram p c

/-- **Two texts.**  If the first one finishes, both with a line break between
them run as one after the other. -/
theorem joins_join {a b : String} {p q : List Stmt} (ha : (compile a).2 = .ok p)
    (hb : (compile b).2 = .ok q) {c : Chain} (hfinished : (run a c).status? = some .finished) :
    (run b (run a c).chain).Joins (a.toList.count '\n' + 1)
      (signalsOf .program (run a c).events) (run (a ++ "\n" ++ b) c) := by
  obtain ⟨hsignals, hchain, -⟩ := run_program ha c
  obtain ⟨hsignals', hchain', houtcome'⟩ := run_program hb (execute p c).chain
  obtain ⟨hwhole, hwholeChain, hwholeOutcome⟩ := run_program (compile_join ha hb) c
  have hparts := execute_append (result_of_status? ha hfinished)
  rw [hparts, execute_shift] at hwhole hwholeChain hwholeOutcome
  rw [hchain]
  refine ⟨?_, ?_, ?_⟩
  · rw [hwhole, signalsOf, signals_append, hsignals, hsignals']
    rfl
  · rw [hwholeChain, hchain']
    rfl
  · rw [hwholeOutcome, houtcome']
    exact outcomeOf_mapError _ _

/-! ## §4. Sessions. -/

/-- The lines that texts take up, each with a line break behind it. -/
def linesOf (sources : List String) : Nat :=
  (sources.flatMap String.toList).count '\n' + sources.length

theorem linesOf_cons (s : String) (sources : List String) :
    linesOf (s :: sources) = linesOf sources + (s.toList.count '\n' + 1) := by
  rw [linesOf, linesOf, List.flatMap_cons, List.count_append, List.length_cons]
  omega

/-- Texts and a last one, with line breaks between them. -/
theorem intercalate_cons_append_singleton (s : String) (sources : List String) (last : String) :
    "\n".intercalate (s :: sources ++ [last])
      = s ++ "\n" ++ "\n".intercalate (sources ++ [last]) := by
  cases sources with
  | nil => rw [List.nil_append, List.cons_append, List.nil_append, String.intercalate_cons_cons]
  | cons s' sources => rw [List.cons_append, List.cons_append, String.intercalate_cons_cons]

/-- The joined text of programs is a program. -/
theorem exists_compile_intercalate {sources : List String} {last : String}
    (h : ∀ s ∈ sources ++ [last], ∃ p, (compile s).2 = .ok p) :
    ∃ p, (compile ("\n".intercalate (sources ++ [last]))).2 = .ok p := by
  induction sources with
  | nil =>
    obtain ⟨p, hp⟩ := h last (List.mem_singleton_self last)
    exact ⟨p, by rwa [List.nil_append, String.intercalate_singleton]⟩
  | cons s sources ih =>
    obtain ⟨⟨p, hp⟩, hrest⟩ := List.forall_mem_cons.1 h
    obtain ⟨q, hq⟩ := ih hrest
    rw [intercalate_cons_append_singleton]
    exact ⟨_, compile_join hp hq⟩

theorem joins_intercalate {sources : List String} {last : String} {c : Chain}
    (hprograms : ∀ s ∈ sources ++ [last], ∃ p, (compile s).2 = .ok p)
    (hfinished : ∀ r ∈ session sources c, r.status? = some .finished) :
    (run last (chainAfter sources c)).Joins (linesOf sources)
      ((session sources c).flatMap fun r => signalsOf .program r.events)
      (run ("\n".intercalate (sources ++ [last])) c) := by
  induction sources generalizing c with
  | nil =>
    rw [List.nil_append, String.intercalate_singleton]
    exact Run.Joins.refl _
  | cons s sources ih =>
    obtain ⟨⟨p, hp⟩, hrest⟩ := List.forall_mem_cons.1 hprograms
    obtain ⟨hfirst, hlater⟩ := List.forall_mem_cons.1 hfinished
    obtain ⟨q, hq⟩ := exists_compile_intercalate hrest
    have hjoins := (ih hrest hlater).trans (joins_join hp hq hfirst)
    rw [intercalate_cons_append_singleton, linesOf_cons]
    exact hjoins

/-- **A SESSION IS ONE SCRIPT.**  Programs that run one after another, all but
the last to their end, run as one text with line breaks between them: it
prints what they print, leaves the scopes that the last one leaves, and ends
as the last one does, but for the lines of the texts before it. -/
theorem run_intercalate {sources : List String} {last : String} {c : Chain}
    (hprograms : ∀ s ∈ sources ++ [last], ¬ IsMalformed s)
    (hfinished : ∀ r ∈ session sources c, r.status? = some .finished) :
    ∃ r, session (sources ++ [last]) c = session sources c ++ [r]
      ∧ r.Joins (linesOf sources)
          ((session sources c).flatMap fun r => signalsOf .program r.events)
          (run ("\n".intercalate (sources ++ [last])) c) := by
  have hcompile : ∀ s ∈ sources ++ [last], ∃ p, (compile s).2 = .ok p := by
    intro s hs
    cases h : (compile s).2 with
    | ok p => exact ⟨p, rfl⟩
    | error ps => exact absurd ((isMalformed_iff s).2 ⟨ps, h⟩) (hprograms s hs)
  exact ⟨_, session_append sources [last] c, joins_intercalate hcompile hfinished⟩

/-- A comment at the end of the first text, a failure on the second line of
the last. -/
theorem run_intercalate_failing :
    (∀ s ∈ ["var a = \"b\"; // c", "print a;"] ++ ["\nprint -a;"], ¬ IsMalformed s)
      ∧ (∀ r ∈ session ["var a = \"b\"; // c", "print a;"] Chain.empty,
          r.status? = some .finished)
      ∧ ∃ r, session ["var a = \"b\"; // c", "print a;", "\nprint -a;"] Chain.empty
          = session ["var a = \"b\"; // c", "print a;"] Chain.empty ++ [r]
        ∧ r.Joins 2 [.write "\"b\"\n", .flush]
          (run "var a = \"b\"; // c\nprint a;\n\nprint -a;" Chain.empty) := by
  have hprograms : ∀ s ∈ ["var a = \"b\"; // c", "print a;"] ++ ["\nprint -a;"],
      ¬ IsMalformed s := by
    have hok : (["var a = \"b\"; // c", "print a;"] ++ ["\nprint -a;"]).all
        (fun s => (compile s).2.isOk) = true := by
      cbv
    intro s hs hmalformed
    rw [isMalformed_iff_isOk] at hmalformed
    exact absurd (List.all_eq_true.1 hok s hs) (by rw [hmalformed]; decide)
  have hfinished : ∀ r ∈ session ["var a = \"b\"; // c", "print a;"] Chain.empty,
      r.status? = some .finished := by
    have hstatus : (session ["var a = \"b\"; // c", "print a;"] Chain.empty).all
        (fun r => r.status? = some .finished) = true := by
      cbv
    exact fun r hr => of_decide_eq_true (List.all_eq_true.1 hstatus r hr)
  have hprinted : ((session ["var a = \"b\"; // c", "print a;"] Chain.empty).flatMap
      fun r => signalsOf .program r.events) = [.write "\"b\"\n", .flush] := by
    cbv
  have hjoined := run_intercalate hprograms hfinished
  rw [hprinted] at hjoined
  exact ⟨hprograms, hfinished, hjoined⟩

end LoxScript
