/-
  LoxScript.Proofs.Evaluation.Frame
  ────────────────────────────────
  What evaluation leaves alone.

  A binding is a name in one of the scopes, which are counted from the
  innermost on.  The two ways to change scopes change one binding each:

      define  — in scope 0, whether or not the name is bound there
      assign  — in the nearest scope that binds the name

  An expression can only assign.  So all scopes keep their names
  (`Retouched`), however the evaluation ends; and statements add names to
  scope 0 only, those that they declare (`Extended`).
-/
import LoxScript.Proofs.Evaluation.Occurrences
import LoxScript.Proofs.Evaluation.Visible

namespace LoxScript

/-! ## §1. Bindings. -/

/-- What a scope, counted from the innermost, binds a name to. -/
def bindingIn (ss : List Scope) (i : Nat) (n : String) : Option Value := ss[i]?.bind (·.get? n)

/-- The nearest scope that binds a name. -/
structure NearestIn (ss : List Scope) (n : String) (i : Nat) : Prop where
  binds : (bindingIn ss i n).isSome
  first : ∀ j < i, bindingIn ss j n = none

/-- One binding has got a value, and nothing else is different. -/
structure SetIn (ss : List Scope) (i : Nat) (n : String) (v : Value) (ss' : List Scope) :
    Prop where
  depth : ss'.length = ss.length
  binding : ∀ j m, bindingIn ss' j m = if j = i ∧ m = n then some v else bindingIn ss j m

@[simp] theorem bindingIn_zero (s : Scope) (ss : List Scope) (n : String) :
    bindingIn (s :: ss) 0 n = s.get? n := rfl

@[simp] theorem bindingIn_succ (s : Scope) (ss : List Scope) (i : Nat) (n : String) :
    bindingIn (s :: ss) (i + 1) n = bindingIn ss i n := rfl

/-- Two scopes cannot both be the nearest one. -/
theorem NearestIn.unique {ss : List Scope} {n : String} {i j : Nat} (hi : NearestIn ss n i)
    (hj : NearestIn ss n j) : i = j := by
  have hnot {i j : Nat} (hi : NearestIn ss n i) (hj : NearestIn ss n j) : ¬ i < j := by
    intro hlt
    have hbinds := hi.binds
    rw [hj.first i hlt] at hbinds
    cases hbinds
  have hle := Nat.not_lt.1 (hnot hi hj)
  have hge := Nat.not_lt.1 (hnot hj hi)
  omega

/-- Scopes are no more than their bindings. -/
theorem eq_of_bindingIn {ss ss' : List Scope} (hlength : ss.length = ss'.length)
    (h : ∀ i n, bindingIn ss i n = bindingIn ss' i n) : ss = ss' := by
  refine List.ext_getElem hlength ?_
  intro i hi hi'
  refine Scope.ext_get? ?_
  intro n
  have hbinding := h i n
  rw [bindingIn, bindingIn, List.getElem?_eq_getElem hi, List.getElem?_eq_getElem hi'] at hbinding
  exact hbinding

theorem setIn_insert (s : Scope) (ss : List Scope) (n : String) (v : Value) :
    SetIn (s :: ss) 0 n v (s.insert n v :: ss) := by
  refine ⟨rfl, ?_⟩
  intro j m
  cases j with
  | zero => simp
  | succ j => simp

theorem SetIn.cons {ss ss' : List Scope} {i : Nat} {n : String} {v : Value}
    (h : SetIn ss i n v ss') (s : Scope) : SetIn (s :: ss) (i + 1) n v (s :: ss') := by
  refine ⟨by simp [h.depth], ?_⟩
  intro j m
  cases j with
  | zero => simp
  | succ j => simp [h.binding]

/-- Assigning sets the nearest binding. -/
theorem exists_setIn_of_assignIn {ss ss' : List Scope} {n : String} {v : Value}
    (h : assignIn n v ss = some ss') : ∃ i, NearestIn ss n i ∧ SetIn ss i n v ss' := by
  induction ss generalizing ss' with
  | nil => cases h
  | cons s ss ih =>
    unfold assignIn at h
    by_cases hs : s.binds n
    · -- the innermost scope is the nearest one
      rw [if_pos hs] at h
      obtain rfl := Option.some.inj h
      refine ⟨0, ⟨hs, ?_⟩, setIn_insert s ss n v⟩
      intro j hj
      omega
    · -- it is further out, and all scopes are counted on by one
      rw [if_neg hs] at h
      obtain ⟨rest, hrest, rfl⟩ := Option.map_eq_some_iff.1 h
      obtain ⟨i, hnearest, hset⟩ := ih hrest
      refine ⟨i + 1, ⟨hnearest.binds, ?_⟩, hset.cons s⟩
      intro j hj
      cases j with
      | zero => simpa [Scope.binds] using hs
      | succ j => exact hnearest.first j (by omega)

namespace Chain

theorem setIn_define (c : Chain) (n : String) (v : Value) :
    SetIn c.scopes 0 n v (c.define n v).scopes := setIn_insert c.inner c.outer n v

theorem exists_setIn_of_assign? {c c' : Chain} {n : String} {v : Value}
    (h : c.assign? n v = some c') :
    ∃ i, NearestIn c.scopes n i ∧ SetIn c.scopes i n v c'.scopes :=
  exists_setIn_of_assignIn (assignIn_scopes h)

/-! ## §2. Expressions only assign. -/

/-- Scopes that assignments of some names lead to, one after another. -/
inductive Assigns (names : String → Prop) (c : Chain) : Chain → Prop where
  | refl : Assigns names c c
  | assign {c' c'' : Chain} {n : String} {v : Value} :
      names n → Assigns names c c' → c'.assign? n v = some c'' → Assigns names c c''

variable {names names' : String → Prop} {a b c : Chain}

theorem Assigns.trans (hab : a.Assigns names b) (hbc : b.Assigns names c) :
    a.Assigns names c := by
  induction hbc with
  | refl => exact hab
  | assign hn _ hassign ih => exact .assign hn ih hassign

theorem Assigns.mono (h : a.Assigns names b) (hsub : ∀ n, names n → names' n) :
    a.Assigns names' b := by
  induction h with
  | refl => exact .refl
  | assign hn _ hassign ih => exact .assign (hsub _ hn) ih hassign

/-- What is done with a value can go on assigning. -/
theorem Assigns.onValue {r : Except Failure Value × Chain} (hr : c.Assigns names r.2)
    {use : Value → Chain → Except Failure Value × Chain}
    (huse : ∀ (v : Value) (d : Chain), d.Assigns names (use v d).2) :
    c.Assigns names (onValue r use).2 := by
  obtain ⟨result, c'⟩ := r
  cases result with
  | ok v => exact hr.trans (huse v c')
  | error f => exact hr

end Chain

theorem assigns_writeName (c : Chain) (t : Token) (v : Value) :
    c.Assigns (AssignedIn [.assigns t]) (writeName c t v).2 := by
  unfold writeName
  cases hassign : c.assign? t.lexeme v with
  | some c' => exact .assign ⟨t, List.mem_cons_self, rfl⟩ .refl hassign
  | none => exact .refl

/-- **Expressions** assign the names that are assigned in them, and do nothing
else to the scopes. -/
theorem Expr.assigns_evaluate (e : Expr) (c : Chain) :
    c.Assigns (AssignedIn e.occurrences) (e.evaluate c).2 := by
  have widen {as bs : List Occurrence} {c c' : Chain} (h : c.Assigns (AssignedIn as) c')
      (hsub : as ⊆ bs) : c.Assigns (AssignedIn bs) c' := h.mono fun n hn => hn.mono hsub
  induction e generalizing c with
  | literal v => exact .refl
  | name t => exact .refl
  | paren e ih => exact ih c
  | unary op e ih =>
    rw [Expr.evaluate_unary]
    refine (widen (ih c) (List.subset_append_left _ _)).onValue ?_
    intro v c
    exact .refl
  | binary l op r ihl ihr =>
    rw [Expr.evaluate_binary]
    refine (widen (ihl c) (List.subset_append_left _ _)).onValue ?_
    intro v c
    refine (widen (widen (ihr c) (List.subset_append_left _ _))
      (List.subset_append_right _ _)).onValue ?_
    intro w c
    exact .refl
  | assign t e ih =>
    rw [Expr.evaluate_assign]
    refine (widen (ih c) (List.subset_append_left _ _)).onValue ?_
    intro v c
    exact widen (assigns_writeName c t v) (List.subset_append_right _ _)

/-! ## §3. The frame of an expression. -/

/-- The same scopes with the same names.  A binding can be different only if
its name is one of `names` and its scope the nearest one that binds it. -/
structure Retouched (names : String → Prop) (ss ss' : List Scope) : Prop where
  depth : ss'.length = ss.length
  binds : ∀ i n, (bindingIn ss' i n).isSome = (bindingIn ss i n).isSome
  nearest : ∀ i n, bindingIn ss' i n ≠ bindingIn ss i n → names n ∧ NearestIn ss n i

section Retouched

variable {names names' : String → Prop} {as bs cs : List Scope}

theorem Retouched.refl (names : String → Prop) (ss : List Scope) : Retouched names ss ss :=
  ⟨rfl, fun _ _ => rfl, fun _ _ h => absurd rfl h⟩

theorem Retouched.mono (h : Retouched names as bs) (hsub : ∀ n, names n → names' n) :
    Retouched names' as bs := by
  refine ⟨h.depth, h.binds, ?_⟩
  intro i n hne
  obtain ⟨hn, hnearest⟩ := h.nearest i n hne
  exact ⟨hsub n hn, hnearest⟩

/-- The nearest scope of a name is the same one afterwards. -/
theorem Retouched.nearestIn_iff (h : Retouched names as bs) (n : String) (i : Nat) :
    NearestIn bs n i ↔ NearestIn as n i := by
  have hnone : ∀ j, bindingIn bs j n = none ↔ bindingIn as j n = none := by
    intro j
    rw [← Option.not_isSome_iff_eq_none, h.binds, Option.not_isSome_iff_eq_none]
  constructor
  · intro hbs
    refine ⟨?_, ?_⟩
    · rw [← h.binds]
      exact hbs.binds
    · intro j hj
      exact (hnone j).1 (hbs.first j hj)
  · intro has
    refine ⟨?_, ?_⟩
    · rw [h.binds]
      exact has.binds
    · intro j hj
      exact (hnone j).2 (has.first j hj)

theorem Retouched.trans (hab : Retouched names as bs) (hbc : Retouched names bs cs) :
    Retouched names as cs := by
  refine ⟨hbc.depth.trans hab.depth, ?_, ?_⟩
  · intro i n
    rw [hbc.binds, hab.binds]
  · intro i n hne
    -- the binding has changed on the way to `bs`, or after it
    by_cases hfirst : bindingIn bs i n = bindingIn as i n
    · have hsecond : bindingIn cs i n ≠ bindingIn bs i n := by
        rw [hfirst]
        exact hne
      obtain ⟨hn, hnearest⟩ := hbc.nearest i n hsecond
      exact ⟨hn, (hab.nearestIn_iff n i).1 hnearest⟩
    · exact hab.nearest i n hfirst

theorem SetIn.retouched {i : Nat} {n : String} {v : Value} (h : SetIn as i n v bs)
    (hn : names n) (hnearest : NearestIn as n i) : Retouched names as bs := by
  refine ⟨h.depth, ?_, ?_⟩
  · intro j m
    rw [h.binding]
    by_cases hjm : j = i ∧ m = n
    · rw [if_pos hjm, hjm.1, hjm.2]
      exact hnearest.binds.symm
    · rw [if_neg hjm]
  · intro j m hne
    rw [h.binding] at hne
    by_cases hjm : j = i ∧ m = n
    · obtain ⟨rfl, rfl⟩ := hjm
      exact ⟨hn, hnearest⟩
    · rw [if_neg hjm] at hne
      exact absurd rfl hne

end Retouched

theorem Chain.Assigns.retouched {names : String → Prop} {c c' : Chain}
    (h : c.Assigns names c') : Retouched names c.scopes c'.scopes := by
  induction h with
  | refl => exact .refl names c.scopes
  | assign hn _ hassign ih =>
    obtain ⟨i, hnearest, hset⟩ := Chain.exists_setIn_of_assign? hassign
    exact ih.trans (hset.retouched hn hnearest)

theorem Expr.retouched_evaluate (e : Expr) (c : Chain) :
    Retouched (AssignedIn e.occurrences) c.scopes (e.evaluate c).2.scopes :=
  (e.assigns_evaluate c).retouched

/-! ## §4. The frame of statements. -/

/-- The same scopes with their names, and in the innermost one perhaps some of
`names` besides. -/
structure Extended (names : String → Prop) (ss ss' : List Scope) : Prop where
  depth : ss'.length = ss.length
  kept : ∀ i n, (bindingIn ss i n).isSome → (bindingIn ss' i n).isSome
  gained : ∀ i n, (bindingIn ss' i n).isSome →
    (bindingIn ss i n).isSome ∨ i = 0 ∧ names n

section Extended

variable {names names' : String → Prop} {as bs cs : List Scope}

theorem Extended.refl (names : String → Prop) (ss : List Scope) : Extended names ss ss :=
  ⟨rfl, fun _ _ h => h, fun _ _ h => .inl h⟩

theorem Extended.trans (hab : Extended names as bs) (hbc : Extended names bs cs) :
    Extended names as cs := by
  refine ⟨hbc.depth.trans hab.depth, ?_, ?_⟩
  · intro i n h
    exact hbc.kept i n (hab.kept i n h)
  · intro i n h
    rcases hbc.gained i n h with hb | hnew
    · exact hab.gained i n hb
    · exact .inr hnew

theorem Extended.mono (h : Extended names as bs) (hsub : ∀ n, names n → names' n) :
    Extended names' as bs := by
  refine ⟨h.depth, h.kept, ?_⟩
  intro i n hbs
  rcases h.gained i n hbs with has | ⟨hi, hn⟩
  · exact .inl has
  · exact .inr ⟨hi, hsub n hn⟩

/-- An expression adds no name at all. -/
theorem Retouched.extended (h : Retouched names as bs) (names' : String → Prop) :
    Extended names' as bs := by
  refine ⟨h.depth, ?_, ?_⟩
  · intro i n has
    rwa [h.binds]
  · intro i n hbs
    rw [h.binds] at hbs
    exact .inl hbs

theorem SetIn.extended {n : String} {v : Value} (h : SetIn as 0 n v bs) (hn : names n) :
    Extended names as bs := by
  refine ⟨h.depth, ?_, ?_⟩
  · intro j m has
    rw [h.binding]
    by_cases hjm : j = 0 ∧ m = n
    · rw [if_pos hjm]
      rfl
    · rwa [if_neg hjm]
  · intro j m hbs
    rw [h.binding] at hbs
    by_cases hjm : j = 0 ∧ m = n
    · exact .inr ⟨hjm.1, hjm.2 ▸ hn⟩
    · rw [if_neg hjm] at hbs
      exact .inl hbs

end Extended

theorem Stmt.extended_bind (s : Stmt) (v : Value) (c : Chain) :
    Extended (DeclaredIn s.declared) c.scopes (s.bind v c).scopes := by
  cases s with
  | expression e => exact .refl _ c.scopes
  | print e => exact .refl _ c.scopes
  | declare t init => exact (c.setIn_define t.lexeme v).extended ⟨t, List.mem_cons_self, rfl⟩

/-- **Statements**, whether they fail or not, add no names but what they
declare. -/
theorem Stmt.extended_execute (s : Stmt) (c : Chain) :
    Extended (DeclaredIn s.occurrences) c.scopes (s.execute c).chain.scopes := by
  have hvalue := (s.value.retouched_evaluate c).extended (DeclaredIn s.occurrences)
  rcases s.chain_execute_cases c with hchain | ⟨v, hchain⟩
  · rw [hchain]
    exact hvalue
  · rw [hchain]
    refine hvalue.trans ((s.extended_bind v _).mono ?_)
    intro n hn
    rw [s.occurrences_eq]
    exact hn.mono (List.subset_append_right _ _)

theorem extended_execute (p : List Stmt) (c : Chain) :
    Extended (DeclaredIn (occurrencesOf p)) c.scopes (execute p c).chain.scopes := by
  induction p generalizing c with
  | nil => exact .refl _ c.scopes
  | cons s p ih =>
    have hfirst : Extended (DeclaredIn (occurrencesOf (s :: p))) c.scopes
        (s.execute c).chain.scopes := by
      refine (s.extended_execute c).mono ?_
      intro n hn
      exact hn.mono (List.subset_append_left _ _)
    cases hresult : (s.execute c).result with
    | error f =>
      rw [execute_cons_of_error hresult]
      exact hfirst
    | ok u =>
      rw [execute_cons_of_ok hresult]
      refine hfirst.trans ((ih (s.execute c).chain).mono ?_)
      intro n hn
      exact hn.mono (List.subset_append_right _ _)

/-- **THE FRAME OF EVALUATION.**  Whatever an expression is and however its
evaluation ends, all scopes keep their names, and a binding is different only
if its name is assigned in the expression and its scope is the nearest one
that binds the name.  Statements, however they end, remove no binding and add
none but to the innermost scope, of names that they declare. -/
theorem evaluate_retouched_and_execute_extended :
    (∀ e c, Retouched (AssignedIn (Expr.occurrences e)) c.scopes (e.evaluate c).2.scopes)
      ∧ ∀ p c, Extended (DeclaredIn (occurrencesOf p)) c.scopes (execute p c).chain.scopes :=
  ⟨Expr.retouched_evaluate, extended_execute⟩

end LoxScript
