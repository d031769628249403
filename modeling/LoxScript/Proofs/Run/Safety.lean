/-
  LoxScript.Proofs.Run.Safety
  ────────────────────────────────
  A run in scopes of language values has an outcome and leaves such scopes
  behind.

  No stage asks whether what it is given makes sense; each relies on what
  the one before it makes.  Scanned tokens carry a value of the language
  unless they are names (`evaluable_of_tokensOf`).  Read from such tokens,
  trees are proper: they spell the tokens, so their literals are the tokens'
  literals, and they are shaped, so their operators are operators
  (`Stmt.Spells.proper`).  Proper trees are executed safely (`safe_execute`).
-/
import LoxScript.Proofs.Evaluation.Safety
import LoxScript.Proofs.Reader.Soundness
import LoxScript.Proofs.Scan.Partition
import LoxScript.Run

namespace LoxScript

/-! ## §1. Literals of scanned tokens. -/

/-- Only a name carries a literal that is no value of the language. -/
def Token.Evaluable (t : Token) : Prop := t.kind ≠ .identifier → t.literal.IsLanguage

theorem IsLexeme.isLanguage {l : List Char} {k : Kind} {v : Value} (h : IsLexeme l k v)
    (hk : k ≠ .identifier) : v.IsLanguage := by
  cases h with
  | keyword _ => cases k <;> trivial
  | name _ _ _ => exact absurd rfl hk
  | single _ | joined _ | alone _ | slash | string _ | whole _ _ | fraction _ _ _ _ => trivial

theorem Partition.evaluable {text : List Char} {ts : List Token} (h : Partition text ts) :
    ∀ t ∈ ts, t.Evaluable := by
  induction h with
  | last _ => simp
  | token _ hlongest _ ih => exact List.forall_mem_cons.2 ⟨hlongest.lexeme.isLanguage, ih⟩

theorem evaluable_of_tokensOf {source : String} {tokens : List Token}
    (h : tokensOf source = .ok tokens) : ∀ t ∈ tokens, t.Evaluable := by
  obtain ⟨hstop, rfl⟩ := (tokensOf_eq_ok_iff source tokens).1 h
  have hplaced := (partition_of_cut source.toList hstop 1).evaluable
  rw [List.forall_mem_append, List.forall_mem_singleton]
  exact ⟨hplaced, fun _ => trivial⟩

/-! ## §2. Trees of such tokens. -/

theorem Expr.Spells.proper {e : Expr} {ts : List Token} (h : e.Spells ts) (hs : e.Shaped)
    (ht : ∀ t ∈ ts, t.Evaluable) : e.Proper := by
  induction h with
  | @literal t hk =>
    exact ht t List.mem_cons_self (ne_of_mem_of_not_mem hk (by decide))
  | name _ => trivial
  | paren _ _ _ ih =>
    simp only [List.cons_append, List.forall_mem_cons, List.forall_mem_append] at ht
    exact ih hs ht.2.1
  | unary _ ih =>
    obtain ⟨hop, _, hs⟩ := hs
    exact ⟨hop, ih hs (List.forall_mem_cons.1 ht).2⟩
  | binary _ _ ihl ihr =>
    obtain ⟨hop, _, _, hl, hr⟩ := hs
    simp only [List.forall_mem_cons, List.forall_mem_append] at ht
    exact ⟨hop, ihl hl ht.1, ihr hr ht.2.2⟩
  | assign _ _ _ ih =>
    simp only [List.forall_mem_cons] at ht
    exact ih hs ht.2.2

theorem Stmt.Spells.proper {s : Stmt} {ts : List Token} (h : s.Spells ts) (hs : s.Shaped)
    (ht : ∀ t ∈ ts, t.Evaluable) : s.Proper := by
  cases h with
  | expression _ he =>
    rw [List.forall_mem_append] at ht
    exact he.proper hs ht.1
  | print _ _ he =>
    simp only [List.cons_append, List.forall_mem_cons, List.forall_mem_append] at ht
    exact he.proper hs ht.2.1
  | declare _ _ _ => trivial
  | declareWith _ _ _ _ he =>
    simp only [List.cons_append, List.forall_mem_cons, List.forall_mem_append] at ht
    exact he.proper hs ht.2.2.2.1

theorem IsProgram.proper {p : List Stmt} {ts : List Token} (h : IsProgram p ts)
    (ht : ∀ t ∈ ts, t.Evaluable) : ∀ s ∈ p, s.Proper := by
  obtain ⟨hspells, hshaped⟩ := h
  induction hspells with
  | nil => simp
  | cons hs _ ih =>
    obtain ⟨hfirst, hrest⟩ := List.forall_mem_cons.1 hshaped
    rw [List.forall_mem_append] at ht
    exact List.forall_mem_cons.2 ⟨hs.proper hfirst ht.1, ih ht.2 hrest⟩

theorem proper_of_programOf {ts : List Token} {p : List Stmt} (h : programOf ts = .ok p)
    (ht : ∀ t ∈ ts, t.Evaluable) : ∀ s ∈ p, s.Proper := by
  obtain ⟨rest, hsplit, _, _⟩ := Reader.exists_eq_beforeEnd_append ts
  have hprogram := Reader.isProgram_beforeEnd h
  rw [hsplit, List.forall_mem_append] at ht
  exact hprogram.proper ht.1

theorem proper_of_compile {source : String} {es : List Event} {p : List Stmt}
    (h : compile source = (es, .ok p)) : ∀ s ∈ p, s.Proper := by
  unfold compile at h
  split at h
  · cases h
  · next tokens htokens =>
    dsimp only at h
    split at h
    · cases h
    · next program hprogram =>
      cases h
      exact proper_of_programOf hprogram (evaluable_of_tokensOf htokens)

/-! ## §3. Runs. -/

/-- An outcome, and scopes that hold the language. -/
structure Run.Safe (r : Run) : Prop where
  outcome : ∃ o, r.outcome = .ok o
  chain : r.chain.HoldsLanguage

theorem safe_runProgram {p : List Stmt} (hp : ∀ s ∈ p, s.Proper) {c : Chain}
    (h : c.HoldsLanguage) : (runProgram p c).Safe := by
  have hsafe := safe_execute hp h
  unfold runProgram
  dsimp only
  split
  · exact ⟨⟨_, rfl⟩, hsafe.chain⟩
  · exact ⟨⟨_, rfl⟩, hsafe.chain⟩
  · next m hm => exact (hsafe.result _ hm).elim

theorem safe_run (source : String) {c : Chain} (h : c.HoldsLanguage) : (run source c).Safe := by
  unfold run
  split
  · exact ⟨⟨_, rfl⟩, h⟩
  · next es p hp =>
    have hsafe := safe_runProgram (proper_of_compile hp) h
    exact ⟨hsafe.outcome, hsafe.chain⟩

/-- **NO ERROR ESCAPES.**  Whatever the source text is, a run has an outcome,
and every scope still holds values of the language only. -/
theorem exists_outcome_of_holdsLanguage (source : String) {c : Chain} (h : c.HoldsLanguage) :
    (∃ o, (run source c).outcome = .ok o) ∧ (run source c).chain.HoldsLanguage :=
  ⟨(safe_run source h).outcome, (safe_run source h).chain⟩

/-- The name `a` of an outer scope, and the name `c` of an inner one. -/
def nestedScopes : Chain := (Chain.empty.define "a" (.text "b")).nest.define "c" .nil

theorem holdsLanguage_nestedScopes : nestedScopes.HoldsLanguage := by
  have houter : (Chain.empty.define "a" (.text "b")).HoldsLanguage :=
    Chain.holdsLanguage_empty.define (v := .text "b") trivial "a"
  exact houter.nest.define (v := .nil) trivial "c"

theorem exists_outcome_of_holdsLanguage_nested :
    nestedScopes.HoldsLanguage
      ∧ (∃ o, (run "a = a + a; c = -a;" nestedScopes).outcome = .ok o)
      ∧ (run "a = a + a; c = -a;" nestedScopes).chain.HoldsLanguage :=
  ⟨holdsLanguage_nestedScopes, exists_outcome_of_holdsLanguage _ holdsLanguage_nestedScopes⟩

end LoxScript
