/-
  LoxScript.Proofs.Evaluation.Independence
  ────────────────────────────────
  Statements that share no name they write can be exchanged.

  Two facts meet.  What a statement does depends on the bindings of its own
  names only: in scopes that agree on these it does the same, and leaves
  scopes that agree on them again (`Stmt.alike_execute`).  And it leaves alone
  every binding of a name that it does not write (`Stmt.agreeOn_execute`).
  So of two statements, each of which writes no name of the other, neither
  can tell whether the other one was there:

            c  ──s──▶  ·
            │          │
            t          t
            ▼          ▼
            ·  ──s──▶  ·
-/
import LoxScript.Proofs.Evaluation.Frame
import LoxScript.Proofs.Run.Session

namespace LoxScript

/-! ## §1. Scopes that agree on some names. -/

/-- As many scopes, and the same bindings of some names. -/
structure AgreeOn (names : String → Prop) (ss ss' : List Scope) : Prop where
  depth : ss'.length = ss.length
  binding : ∀ n, names n → ∀ i, bindingIn ss' i n = bindingIn ss i n

/-- A look-up depends on the bindings of its name. -/
theorem lookIn_congr {ss ss' : List Scope} {n : String} (hlength : ss'.length = ss.length)
    (h : ∀ i, bindingIn ss' i n = bindingIn ss i n) : lookIn n ss' = lookIn n ss := by
  induction ss generalizing ss' with
  | nil =>
    rw [List.length_nil, List.length_eq_zero_iff] at hlength
    rw [hlength]
  | cons s ss ih =>
    obtain ⟨s', ss', rfl⟩ := List.exists_cons_of_length_eq_add_one hlength
    have hfirst : s'.get? n = s.get? n := h 0
    have hrest : lookIn n ss' = lookIn n ss := by
      refine ih (by simpa using hlength) ?_
      intro i
      exact h (i + 1)
    rw [lookIn, lookIn, hfirst, hrest]

namespace AgreeOn

variable {names : String → Prop} {c d : Chain}

theorem get?_eq (h : AgreeOn names c.scopes d.scopes) {n : String} (hn : names n) :
    d.get? n = c.get? n := lookIn_congr h.depth (h.binding n hn)

theorem nearestIn {ss ss' : List Scope} (h : AgreeOn names ss ss') {n : String} (hn : names n)
    {i : Nat} (hnearest : NearestIn ss n i) : NearestIn ss' n i := by
  refine ⟨?_, ?_⟩
  · rw [h.binding n hn]
    exact hnearest.binds
  · intro j hj
    rw [h.binding n hn]
    exact hnearest.first j hj

/-- The same binding set on both sides leaves the scopes in agreement. -/
theorem setIn {as bs as' bs' : List Scope} (h : AgreeOn names as bs) {i : Nat} {n : String}
    {v : Value} (has : SetIn as i n v as') (hbs : SetIn bs i n v bs') : AgreeOn names as' bs' := by
  refine ⟨?_, ?_⟩
  · rw [hbs.depth, has.depth, h.depth]
  · intro m hm j
    rw [hbs.binding, has.binding, h.binding m hm]

theorem define (h : AgreeOn names c.scopes d.scopes) (n : String) (v : Value) :
    AgreeOn names (c.define n v).scopes (d.define n v).scopes :=
  h.setIn (c.setIn_define n v) (d.setIn_define n v)

/-- Assigning succeeds on both sides or on neither. -/
theorem assign? (h : AgreeOn names c.scopes d.scopes) {n : String} (hn : names n) (v : Value) :
    (c.assign? n v = none ∧ d.assign? n v = none)
      ∨ ∃ c' d', c.assign? n v = some c' ∧ d.assign? n v = some d'
          ∧ AgreeOn names c'.scopes d'.scopes := by
  have hsome : (d.assign? n v).isSome = (c.assign? n v).isSome := by
    rw [Chain.isSome_assign?, Chain.isSome_assign?, h.get?_eq hn]
  cases hc : c.assign? n v with
  | none =>
    rw [hc] at hsome
    exact .inl ⟨rfl, Option.not_isSome_iff_eq_none.1 (by simp [hsome])⟩
  | some c' =>
    rw [hc] at hsome
    obtain ⟨d', hd⟩ := Option.isSome_iff_exists.1 hsome
    obtain ⟨i, hi, hset⟩ := Chain.exists_setIn_of_assign? hc
    obtain ⟨j, hj, hset'⟩ := Chain.exists_setIn_of_assign? hd
    -- the nearest scope of the name is the same one on both sides
    obtain rfl := (h.nearestIn hn hi).unique hj
    exact .inr ⟨c', d', rfl, hd, h.setIn hset hset'⟩

end AgreeOn

/-- A chain is no more than its scopes. -/
theorem Chain.eq_of_scopes {c d : Chain} (h : c.scopes = d.scopes) : c = d := by
  obtain ⟨inner, outer⟩ := c
  obtain ⟨inner', outer'⟩ := d
  obtain ⟨rfl, rfl⟩ := List.cons.inj h
  rfl

/-! ## §2. What is done depends on the own names. -/

/-- The same result, and scopes that agree. -/
structure Alike (names : String → Prop) (x y : Except Failure Value × Chain) : Prop where
  result : y.1 = x.1
  chain : AgreeOn names x.2.scopes y.2.scopes

section Alike

variable {names : String → Prop} {c d : Chain}

theorem alike_writeName (h : AgreeOn names c.scopes d.scopes) {t : Token}
    (ht : names t.lexeme) (v : Value) : Alike names (writeName c t v) (writeName d t v) := by
  unfold writeName
  rcases h.assign? ht v with ⟨hc, hd⟩ | ⟨c', d', hc, hd, hagree⟩
  · rw [hc, hd]
    exact ⟨rfl, h⟩
  · rw [hc, hd]
    exact ⟨rfl, hagree⟩

/-- Alike results are used alike. -/
theorem Alike.onValue {x y : Except Failure Value × Chain} (h : Alike names x y)
    {use : Value → Chain → Except Failure Value × Chain}
    (huse : ∀ v (c d : Chain), AgreeOn names c.scopes d.scopes → Alike names (use v c) (use v d)) :
    Alike names (onValue x use) (onValue y use) := by
  obtain ⟨result, c⟩ := x
  obtain ⟨result', d⟩ := y
  obtain ⟨hresult, hagree⟩ := h
  obtain rfl : result' = result := hresult
  cases result' with
  | ok v => exact huse v c d hagree
  | error f => exact ⟨rfl, hagree⟩

/-- **An expression** has the same value in scopes that agree on its names. -/
theorem Expr.alike_evaluate {e : Expr} (he : ∀ n, OccursIn e.occurrences n → names n)
    (h : AgreeOn names c.scopes d.scopes) : Alike names (e.evaluate c) (e.evaluate d) := by
  have narrow {as bs : List Occurrence} (hbs : ∀ n, OccursIn bs n → names n) (hsub : as ⊆ bs) :
      ∀ n, OccursIn as n → names n := fun n hn => hbs n (hn.mono hsub)
  induction e generalizing c d with
  | literal v => exact ⟨rfl, h⟩
  | paren e ih => exact ih he h
  | unary op e ih =>
    rw [Expr.evaluate_unary, Expr.evaluate_unary]
    refine (ih (narrow he (List.subset_append_left _ _)) h).onValue ?_
    intro v c d hcd
    exact ⟨rfl, hcd⟩
  | binary l op r ihl ihr =>
    have hr : ∀ n, OccursIn (r.occurrences ++ [.applies op]) n → names n :=
      narrow he (List.subset_append_right _ _)
    rw [Expr.evaluate_binary, Expr.evaluate_binary]
    refine (ihl (narrow he (List.subset_append_left _ _)) h).onValue ?_
    intro v c d hcd
    refine (ihr (narrow hr (List.subset_append_left _ _)) hcd).onValue ?_
    intro w c d hcd
    exact ⟨rfl, hcd⟩
  | name t =>
    have ht : names t.lexeme := he _ ⟨.reads t, List.mem_cons_self, rfl⟩
    refine ⟨?_, h⟩
    show readName d t = readName c t
    rw [readName, h.get?_eq ht, readName]
  | assign t e ih =>
    have ht : names t.lexeme :=
      he _ ⟨.assigns t, List.mem_append_right _ List.mem_cons_self, rfl⟩
    rw [Expr.evaluate_assign, Expr.evaluate_assign]
    refine (ih (narrow he (List.subset_append_left _ _)) h).onValue ?_
    intro v c d hcd
    exact alike_writeName hcd ht v

end Alike

/-- The same events and the same result, and scopes that agree. -/
structure Execution.Alike (names : String → Prop) (x y : Execution) : Prop where
  events : y.events = x.events
  result : y.result = x.result
  chain : AgreeOn names x.chain.scopes y.chain.scopes

theorem Stmt.alike_deed {names : String → Prop} {c d : Chain} (s : Stmt) (v : Value)
    (h : AgreeOn names c.scopes d.scopes) : (s.deed v c).Alike names (s.deed v d) := by
  cases s with
  | expression e => exact ⟨rfl, rfl, h⟩
  | print e =>
    rw [Stmt.deed, Stmt.deed]
    cases printValue v with
    | ok es => exact ⟨rfl, rfl, h⟩
    | error m => exact ⟨rfl, rfl, h⟩
  | declare t init => exact ⟨rfl, rfl, h.define t.lexeme v⟩

/-- **A statement** does the same in scopes that agree on its names. -/
theorem Stmt.alike_execute {names : String → Prop} {s : Stmt} {c d : Chain}
    (hs : ∀ n, OccursIn s.occurrences n → names n) (h : AgreeOn names c.scopes d.scopes) :
    (s.execute c).Alike names (s.execute d) := by
  have hvalue : Alike names (s.value.evaluate c) (s.value.evaluate d) := by
    refine Expr.alike_evaluate ?_ h
    intro n hn
    rw [s.occurrences_eq] at hs
    exact hs n (hn.mono (List.subset_append_left _ _))
  cases hc : s.value.evaluate c with | mk result c' =>
  cases hd : s.value.evaluate d with | mk result' d' =>
  rw [hc, hd] at hvalue
  obtain ⟨hresult, hagree⟩ := hvalue
  obtain rfl : result' = result := hresult
  cases result' with
  | error f =>
    rw [Stmt.execute_of_failure hc, Stmt.execute_of_failure hd]
    exact ⟨rfl, rfl, hagree⟩
  | ok v =>
    rw [Stmt.execute_of_value hc, Stmt.execute_of_value hd]
    exact s.alike_deed v hagree

/-! ## §3. What is left alone. -/

theorem Retouched.agreeOn {names : String → Prop} {ss ss' : List Scope}
    (h : Retouched names ss ss') : AgreeOn (fun n => ¬ names n) ss ss' := by
  refine ⟨h.depth, ?_⟩
  intro n hn i
  by_contra hne
  exact hn (h.nearest i n hne).1

theorem AgreeOn.trans {names : String → Prop} {as bs cs : List Scope} (hab : AgreeOn names as bs)
    (hbc : AgreeOn names bs cs) : AgreeOn names as cs := by
  refine ⟨hbc.depth.trans hab.depth, ?_⟩
  intro n hn i
  rw [hbc.binding n hn, hab.binding n hn]

theorem AgreeOn.mono {names names' : String → Prop} {as bs : List Scope} (h : AgreeOn names as bs)
    (hsub : ∀ n, names' n → names n) : AgreeOn names' as bs :=
  ⟨h.depth, fun n hn => h.binding n (hsub n hn)⟩

theorem Stmt.agreeOn_bind (s : Stmt) (v : Value) (c : Chain) :
    AgreeOn (fun n => ¬ DeclaredIn s.declared n) c.scopes (s.bind v c).scopes := by
  cases s with
  | expression e => exact ⟨rfl, fun _ _ _ => rfl⟩
  | print e => exact ⟨rfl, fun _ _ _ => rfl⟩
  | declare t init =>
    refine ⟨rfl, ?_⟩
    intro n hn i
    have hne : ¬ (i = 0 ∧ n = t.lexeme) := by
      rintro ⟨-, rfl⟩
      exact hn ⟨t, List.mem_cons_self, rfl⟩
    rw [Stmt.bind, (c.setIn_define t.lexeme v).binding, if_neg hne]

/-- **A statement** leaves alone what it does not write. -/
theorem Stmt.agreeOn_execute (s : Stmt) (c : Chain) :
    AgreeOn (fun n => ¬ WrittenIn s.occurrences n) c.scopes (s.execute c).chain.scopes := by
  have hvalue : AgreeOn (fun n => ¬ WrittenIn s.occurrences n) c.scopes
      (s.value.evaluate c).2.scopes := by
    refine (s.value.retouched_evaluate c).agreeOn.mono ?_
    intro n hn hassigned
    rw [s.occurrences_eq] at hn
    exact hn (.inl (hassigned.mono (List.subset_append_left _ _)))
  rcases s.chain_execute_cases c with hchain | ⟨v, hchain⟩
  · rw [hchain]
    exact hvalue
  · rw [hchain]
    refine hvalue.trans ((s.agreeOn_bind v _).mono ?_)
    intro n hn hdeclared
    rw [s.occurrences_eq] at hn
    exact hn (.inr (hdeclared.mono (List.subset_append_right _ _)))

/-! ## §4. Two statements. -/

/-- Neither statement writes a name that occurs in the other. -/
structure Stmt.IsIndependentOf (s t : Stmt) : Prop where
  left : ∀ n, WrittenIn s.occurrences n → ¬ OccursIn t.occurrences n
  right : ∀ n, WrittenIn t.occurrences n → ¬ OccursIn s.occurrences n

/-- `t` does the same before `s` and after it, however the two end. -/
theorem Stmt.IsIndependentOf.alike {s t : Stmt} (h : s.IsIndependentOf t) (c : Chain) :
    (t.execute c).Alike (OccursIn t.occurrences) (t.execute (s.execute c).chain) := by
  refine Stmt.alike_execute (fun n hn => hn) ((s.agreeOn_execute c).mono ?_)
  intro n hn hwritten
  exact h.left n hwritten hn

theorem Stmt.IsIndependentOf.symm {s t : Stmt} (h : s.IsIndependentOf t) : t.IsIndependentOf s :=
  ⟨h.right, h.left⟩

/-- Both orders lead to the same scopes. -/
theorem Stmt.IsIndependentOf.chain_eq {s t : Stmt} (h : s.IsIndependentOf t) (c : Chain) :
    (s.execute (t.execute c).chain).chain = (t.execute (s.execute c).chain).chain := by
  have hs := s.agreeOn_execute c
  have ht := t.agreeOn_execute c
  have hst := t.agreeOn_execute (s.execute c).chain
  have hts := s.agreeOn_execute (t.execute c).chain
  have hscopes : (s.execute (t.execute c).chain).chain.scopes
      = (t.execute (s.execute c).chain).chain.scopes := by
    refine eq_of_bindingIn ?_ ?_
    · rw [hts.depth, ht.depth, hst.depth, hs.depth]
    · intro i n
      -- each binding is as the statement that writes it leaves it
      by_cases hws : WrittenIn s.occurrences n
      · have hwt : ¬ WrittenIn t.occurrences n := fun hwt => h.left n hws hwt.occursIn
        rw [(h.symm.alike c).chain.binding n hws.occursIn, hst.binding n hwt]
      · rw [hts.binding n hws]
        by_cases hwt : WrittenIn t.occurrences n
        · rw [(h.alike c).chain.binding n hwt.occursIn]
        · rw [ht.binding n hwt, hst.binding n hwt, hs.binding n hws]
  exact Chain.eq_of_scopes hscopes

/-- Only a print statement writes. -/
theorem Stmt.signals_execute_of_ne_print {s : Stmt} (h : ∀ e, s ≠ .print e) (c : Chain)
    (serves : Sink → Bool) : signals serves (s.execute c).events = [] := by
  cases hvalue : s.value.evaluate c with | mk result c' =>
  cases result with
  | error f =>
    rw [Stmt.execute_of_failure hvalue]
    rfl
  | ok v =>
    rw [Stmt.execute_of_value hvalue]
    cases s with
    | expression e => rfl
    | print e => exact absurd rfl (h e)
    | declare t init => rfl

/-- Two statements do not fail if the first does not, and the second does not
behind it. -/
theorem execute_pair_eq_ok_iff (s t : Stmt) (c : Chain) :
    (execute [s, t] c).result = .ok ()
      ↔ (s.execute c).result = .ok () ∧ (t.execute (s.execute c).chain).result = .ok () := by
  cases hs : (s.execute c).result with
  | error f => simp [execute, hs]
  | ok u =>
    cases ht : (t.execute (s.execute c).chain).result with
    | error f => simp [execute, hs, ht]
    | ok u => simp [execute, hs, ht]

theorem execute_pair {s t : Stmt} {c : Chain} (hs : (s.execute c).result = .ok ())
    (ht : (t.execute (s.execute c).chain).result = .ok ()) :
    execute [s, t] c
      = ⟨(s.execute c).events ++ (t.execute (s.execute c).chain).events, .ok (),
          (t.execute (s.execute c).chain).chain⟩ := by
  rw [execute_cons_of_ok hs, execute_cons_of_ok ht]
  simp [execute]

/-- **INDEPENDENT STATEMENTS COMMUTE.**  Two statements, not both `print`, of
which neither writes a name that occurs in the other: if one after the other
they do not fail, then the other way round they do not fail either, write the
same and leave the same scopes. -/
theorem execute_swap {s t : Stmt} (hindependent : s.IsIndependentOf t)
    (hprint : ∀ e f, ¬ (s = .print e ∧ t = .print f)) {c : Chain}
    (h : (execute [s, t] c).result = .ok ()) :
    (execute [t, s] c).result = .ok ()
      ∧ (∀ serves, signals serves (execute [t, s] c).events
          = signals serves (execute [s, t] c).events)
      ∧ (execute [t, s] c).chain = (execute [s, t] c).chain := by
  obtain ⟨hs, ht⟩ := (execute_pair_eq_ok_iff s t c).1 h
  have halike := hindependent.alike c
  have halike' := hindependent.symm.alike c
  have ht' : (t.execute c).result = .ok () := by rw [← halike.result, ht]
  have hs' : (s.execute (t.execute c).chain).result = .ok () := by rw [halike'.result, hs]
  rw [execute_pair hs ht, execute_pair ht' hs']
  refine ⟨rfl, ?_, hindependent.chain_eq c⟩
  intro serves
  show signals serves (_ ++ _) = signals serves (_ ++ _)
  rw [signals_append, signals_append, halike.events, halike'.events]
  -- at least one of the two has written nothing
  by_cases hprints : ∃ e, s = .print e
  · obtain ⟨e, rfl⟩ := hprints
    have hnot : ∀ f, t ≠ .print f := fun f hf => hprint e f ⟨rfl, hf⟩
    rw [t.signals_execute_of_ne_print hnot, List.append_nil, List.nil_append]
  · rw [not_exists] at hprints
    rw [s.signals_execute_of_ne_print hprints, List.append_nil, List.nil_append]

/-- Two scopes, with a name of the outer one that the first statement hides and
another that the second one assigns. -/
def exchangeScopes : Chain :=
  (((Chain.empty.define "a" .nil).define "b" .nil).define "d" (.text "x")).nest.define "c" .nil

/-- The statement `var b = c;`. -/
def hidingStatement : Stmt :=
  .declare ⟨.identifier, "b", .name "b", 1⟩ (some (.name ⟨.identifier, "c", .name "c", 1⟩))

/-- The statement `print a = d;`. -/
def assigningStatement : Stmt :=
  .print (.assign ⟨.identifier, "a", .name "a", 2⟩ (.name ⟨.identifier, "d", .name "d", 2⟩))

theorem execute_swap_hiding :
    hidingStatement.IsIndependentOf assigningStatement
      ∧ (∀ e f, ¬ (hidingStatement = .print e ∧ assigningStatement = .print f))
      ∧ (execute [hidingStatement, assigningStatement] exchangeScopes).result = .ok ()
      ∧ (execute [assigningStatement, hidingStatement] exchangeScopes).result = .ok ()
      ∧ (∀ serves,
          signals serves (execute [assigningStatement, hidingStatement] exchangeScopes).events
            = signals serves
                (execute [hidingStatement, assigningStatement] exchangeScopes).events)
      ∧ (execute [assigningStatement, hidingStatement] exchangeScopes).chain
          = (execute [hidingStatement, assigningStatement] exchangeScopes).chain := by
  have hindependent : hidingStatement.IsIndependentOf assigningStatement := by
    constructor
    · intro n hn
      obtain rfl : "b" = n := by
        simpa [hidingStatement, Stmt.occurrences, Expr.occurrences, WrittenIn, AssignedIn,
          DeclaredIn] using hn
      simp [assigningStatement, Stmt.occurrences, Expr.occurrences, OccursIn, Occurrence.name?]
    · intro n hn
      obtain rfl : "a" = n := by
        simpa [assigningStatement, Stmt.occurrences, Expr.occurrences, WrittenIn, AssignedIn,
          DeclaredIn] using hn
      simp [hidingStatement, Stmt.occurrences, Expr.occurrences, OccursIn, Occurrence.name?]
  have hprint : ∀ e f, ¬ (hidingStatement = .print e ∧ assigningStatement = .print f) := by
    rintro e f ⟨he, -⟩
    cases he
  have hresult : (execute [hidingStatement, assigningStatement] exchangeScopes).result
      = .ok () := by
    cbv
  exact ⟨hindependent, hprint, hresult, execute_swap hindependent hprint hresult⟩

end LoxScript
