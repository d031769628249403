/-
  LoxScript.Proofs.Reader.Errors
  ────────────────────────────────
  Every error is about a token that was read.

  There are two sorts of error.  A token that cannot stand where it stands is
  named with its own line; something that is missing has the line of the token
  behind which it is missing.  The first sort is never a literal: a literal
  fits wherever an operand is due, and where none is due something else is
  missing.

      1 = 2 ;      — the `=` cannot stand here
      print "a     — a `;` is missing behind "a"

  Between two tokens the reader remembers only such tokens as it may have to
  blame: the last one, and the `=` of every assignment that waits for its
  value.  So if a property holds of all tokens that are read, errors are about
  tokens that have it.
-/
import LoxScript.Proofs.Reader.Steps

namespace LoxScript

/-! ## §1. What errors are about. -/

/-- An error about a token with a property. -/
inductive SyntaxError.IsAbout (P : Token → Prop) : SyntaxError → Prop where
  | stray {t : Token} : P t → t.kind ∉ Kind.literals →
      IsAbout P ⟨.strayToken t.lexeme, t.line⟩
  | missing {cause : SyntaxCause} {t : Token} : cause.isMissing → P t → IsAbout P ⟨cause, t.line⟩

theorem SyntaxError.IsAbout.mono {P Q : Token → Prop} {e : SyntaxError} (h : e.IsAbout P)
    (hPQ : ∀ t, P t → Q t) : e.IsAbout Q := by
  cases h with
  | stray ht hkind => exact .stray (hPQ _ ht) hkind
  | missing hcause ht => exact .missing hcause (hPQ _ ht)

namespace Reader

variable {P : Token → Prop}

/-- A frame that blames no other token than an `=` with the property. -/
def Frame.Remembers (P : Token → Prop) : Frame → Prop
  | .assign _ eq => eq.kind = .equal ∧ P eq
  | .unary _ | .binary _ _ _ | .group => True

/-- A state that can blame only tokens with the property. -/
def State.Remembers (P : Token → Prop) : State → Prop
  | .fresh | .skipping => True
  | .naming last | .named last => P last
  | .operand _ k last | .operator _ k _ last => (∀ f ∈ k, f.Remembers P) ∧ P last

/-- A step all of whose errors are about tokens with the property, and that
leads to a state which remembers no others. -/
structure Step.IsAbout (P : Token → Prop) (r : Step) : Prop where
  errors : ∀ e, .error e ∈ r.attempts → e.IsAbout P
  state : r.state.Remembers P

/-! ## §2. Ending operators. -/

theorem settle_remembers (level : Nat) {k : List Frame} (hk : ∀ f ∈ k, f.Remembers P) (e : Expr) :
    ∀ f ∈ (settle level e k).2, f.Remembers P := by
  induction k generalizing e with
  | nil => exact hk
  | cons f k ih =>
    obtain ⟨_, hrest⟩ := List.forall_mem_cons.1 hk
    cases f with
    | unary op => exact ih hrest _
    | binary n l op =>
      unfold settle
      split
      · exact ih hrest _
      · exact hk
    | assign target eq => exact hk
    | group => exact hk

theorem close_inside_remembers {k k' : List Frame} (hk : ∀ f ∈ k, f.Remembers P) {e e' : Expr}
    (hc : close e k = .ok (.inside e' k')) : ∀ f ∈ k', f.Remembers P := by
  induction k generalizing e with
  | nil => cases hc
  | cons f k ih =>
    obtain ⟨_, hrest⟩ := List.forall_mem_cons.1 hk
    cases f with
    | unary op => exact ih hrest hc
    | binary n l op => exact ih hrest hc
    | group =>
      cases hc
      exact hrest
    | assign target eq =>
      cases target with
      | name t => exact ih hrest hc
      | _ => cases hc

/-- What cannot be closed is an assignment, and its `=` is to blame. -/
theorem close_isAbout {k : List Frame} (hk : ∀ f ∈ k, f.Remembers P) {e : Expr}
    {err : SyntaxError} (hc : close e k = .error err) : err.IsAbout P := by
  induction k generalizing e with
  | nil => cases hc
  | cons f k ih =>
    obtain ⟨hf, hrest⟩ := List.forall_mem_cons.1 hk
    cases f with
    | unary op => exact ih hrest hc
    | binary n l op => exact ih hrest hc
    | group => cases hc
    | assign target eq =>
      obtain ⟨hkind, hP⟩ := hf
      have hstray : SyntaxError.IsAbout P ⟨.strayToken eq.lexeme, eq.line⟩ :=
        .stray hP (by rw [hkind]; decide)
      cases target with
      | name t => exact ih hrest hc
      | literal _ | paren _ | unary _ _ | binary _ _ _ | assign _ _ =>
        cases hc
        exact hstray

/-! ## §3. One token. -/

/-- A step that ends no attempt. -/
theorem Step.IsAbout.goes {s : State} (h : s.Remembers P) : Step.IsAbout P ⟨[], s⟩ :=
  ⟨fun _ he => absurd he List.not_mem_nil, h⟩

variable {t : Token} (ht : P t)
include ht

theorem readOperand_isAbout (o : Opening) {k : List Frame} (hk : ∀ f ∈ k, f.Remembers P) :
    (readOperand o k t).IsAbout P := by
  by_cases hlit : t.kind ∈ Kind.literals
  · rw [readOperand_of_literal o k hlit]
    exact .goes ⟨hk, ht⟩
  · rcases readOperand_cases o k t with ⟨h, -⟩ | ⟨-, hr⟩ | ⟨-, hr⟩ | ⟨-, hr⟩ | hr
    · exact absurd h hlit
    · rw [hr]
      exact .goes ⟨hk, ht⟩
    · rw [hr]
      exact .goes ⟨List.forall_mem_cons.2 ⟨trivial, hk⟩, ht⟩
    · rw [hr]
      exact .goes ⟨List.forall_mem_cons.2 ⟨trivial, hk⟩, ht⟩
    · rw [hr]
      refine ⟨?_, trivial⟩
      intro e he
      obtain rfl := Except.error.inj (List.mem_singleton.1 he)
      exact .stray ht hlit

theorem readStart_isAbout : (readStart t).IsAbout P := by
  unfold readStart
  split
  · exact .goes ht
  · split
    · exact .goes ⟨by simp, ht⟩
    · exact readOperand_isAbout ht .expression (by simp)

theorem skip_isAbout : (skip t).IsAbout P := by
  unfold skip
  split
  · exact .goes trivial
  · split
    · exact readStart_isAbout ht
    · exact .goes trivial

theorem failBefore_isAbout {e : SyntaxError} (he : e.IsAbout P) : (failBefore e t).IsAbout P := by
  obtain ⟨herrors, hstate⟩ := skip_isAbout ht
  refine ⟨?_, hstate⟩
  intro e' he'
  rcases List.mem_cons.1 he' with h | h
  · obtain rfl := Except.error.inj h
    exact he
  · exact herrors e' h

theorem readSemicolon_isAbout {cause : SyntaxCause} (hcause : cause.isMissing) (s : Stmt)
    {last : Token} (hlast : P last) : (readSemicolon cause s last t).IsAbout P := by
  unfold readSemicolon
  split
  · refine ⟨?_, trivial⟩
    intro e he
    cases List.mem_singleton.1 he
  · exact failBefore_isAbout ht (.missing hcause hlast)

theorem readOperator_isAbout (o : Opening) {k : List Frame} (hk : ∀ f ∈ k, f.Remembers P)
    (e : Expr) {last : Token} (hlast : P last) : (readOperator o k e last t).IsAbout P := by
  unfold readOperator
  cases t.kind.level? with
  | some level =>
    exact .goes ⟨List.forall_mem_cons.2 ⟨trivial, settle_remembers level hk e⟩, ht⟩
  | none =>
    by_cases hequal : t.kind = .equal
    · rw [if_pos hequal]
      exact .goes ⟨List.forall_mem_cons.2 ⟨⟨hequal, ht⟩, settle_remembers 0 hk e⟩, ht⟩
    · rw [if_neg hequal]
      cases hc : close e k with
      | error err => exact failBefore_isAbout ht (close_isAbout hk hc)
      | ok c =>
        cases c with
        | inside e' k' =>
          dsimp only
          split
          · exact .goes ⟨close_inside_remembers hk hc, ht⟩
          · exact failBefore_isAbout ht (.missing rfl hlast)
        | whole e' => exact readSemicolon_isAbout ht o.isMissing_unclosed _ hlast

/-- **One token.**  If it has the property too, no other token is blamed. -/
theorem read_isAbout {s : State} (hs : s.Remembers P) : (s.read t).IsAbout P := by
  cases s with
  | fresh => exact readStart_isAbout ht
  | naming last =>
    show Step.IsAbout P (if t.kind = .identifier then _ else _)
    split
    · exact .goes ht
    · exact failBefore_isAbout ht (.missing rfl hs)
  | named name =>
    show Step.IsAbout P (if t.kind = .equal then _ else _)
    split
    · exact .goes ⟨by simp, ht⟩
    · exact readSemicolon_isAbout ht rfl _ hs
  | operand o k last => exact readOperand_isAbout ht o hs.1
  | operator o k e last => exact readOperator_isAbout ht o hs.1 e hs.2
  | skipping => exact skip_isAbout ht

omit ht

/-! ## §4. All tokens. -/

/-- At the end of the tokens the last one is blamed, or an `=` before it. -/
theorem finish_isAbout {s : State} (hs : s.Remembers P) :
    ∀ e, .error e ∈ s.finish → e.IsAbout P := by
  have hone {e e' : SyntaxError} (h : e.IsAbout P)
      (he : (.error e' : Attempt) ∈ [.error e]) : e'.IsAbout P := by
    obtain rfl := Except.error.inj (List.mem_singleton.1 he)
    exact h
  intro e he
  cases s with
  | fresh | skipping => cases he
  | naming last | named last => exact hone (.missing rfl hs) he
  | operand o k last => exact hone (.missing rfl hs.2) he
  | operator o k e' last =>
    unfold State.finish at he
    dsimp only at he
    split at he
    · next hc => exact hone (close_isAbout hs.1 hc) he
    · exact hone (.missing rfl hs.2) he
    · exact hone (.missing o.isMissing_unclosed hs.2) he

/-- **All tokens.**  Every error from a state on is about one of them, or about
a token that the state remembers. -/
theorem attempts_isAbout {s : State} (hs : s.Remembers P) {ts : List Token} (hts : ∀ t ∈ ts, P t) :
    ∀ e, .error e ∈ s.attempts ts → e.IsAbout P := by
  -- on the tokens that are left; the state changes with each of them
  induction ts generalizing s with
  | nil => exact finish_isAbout hs
  | cons t ts ih =>
    obtain ⟨ht, hrest⟩ := List.forall_mem_cons.1 hts
    obtain ⟨herrors, hstate⟩ := read_isAbout ht hs
    intro e he
    rcases List.mem_append.1 he with h | h
    · exact herrors e h
    · exact ih hstate hrest e h

end Reader

/-- Tokens that are no program have errors, and all of them are told. -/
theorem programOf_eq_error {ts : List Token} {es : List SyntaxError}
    (h : programOf ts = .error es) : es = syntaxErrors ts ∧ es ≠ [] := by
  unfold programOf at h
  split at h
  · cases h
  · next hne =>
    obtain rfl := Except.error.inj h
    exact ⟨rfl, hne⟩

/-- **SYNTAX ERRORS** are about tokens before the first end token. -/
theorem isAbout_of_mem_syntaxErrors {ts : List Token} :
    ∀ e ∈ syntaxErrors ts, e.IsAbout (· ∈ beforeEnd ts) := by
  intro e he
  obtain ⟨a, ha, hae⟩ := List.mem_filterMap.1 he
  have herror : a = .error e := by
    cases a with
    | error e' => rw [Option.some.inj hae]
    | ok s => cases hae
  rw [herror] at ha
  exact Reader.attempts_isAbout (s := .fresh) trivial (fun _ ht => ht) e ha

end LoxScript
