/-
  LoxScript.Proofs.Scope.Visibility
  ────────────────────────────────
  What is seen once is seen for good.

  Requests never take a binding away and never move a scope.  So a name that
  a scope sees stays seen, through whichever scopes further requests go and
  whether they succeed.  Its owner can change in one way only:

      d ── … ── o' ── … ── o          the way out from d
                ▲          ▲
                │          the owner so far
                the owner from now on, by a definition

  A request says all it does to owners in `Owns.answer`; that a run of
  requests does no more follows by going through it from its start, since
  "nearer" is transitive.
-/
import LoxScript.Proofs.Scope.Views

namespace LoxScript
namespace Forest

/-! ## §1. Nearer owners. -/

/-- On the way out from `d`, the scope `o'` is met before `o`. -/
structure IsNearer (f : Forest) (d o' o : Nat) : Prop where
  near : Relation.ReflTransGen (fun i j => f.parent? i = some j) d o'
  far : Relation.TransGen (fun i j => f.parent? i = some j) o' o

theorem IsNearer.trans {f : Forest} {d o o' o'' : Nat} (h : f.IsNearer d o'' o')
    (h' : f.IsNearer d o' o) : f.IsNearer d o'' o :=
  ⟨h.near, h.far.trans h'.far⟩

/-- The scopes of `f` lie in `g` where they lay. -/
def Stays (f g : Forest) : Prop := ∀ i j, f.parent? i = some j → g.parent? i = some j

theorem IsNearer.mono {f g : Forest} (hfg : f.Stays g) {d o o' : Nat} (h : f.IsNearer d o' o) :
    g.IsNearer d o' o :=
  ⟨Relation.ReflTransGen.mono hfg _ _ h.near, Relation.TransGen.mono hfg _ _ h.far⟩

/-- What is reached lies on the way out. -/
theorem Reaches.reflTransGen {f : Forest} {n : String} {d s : Nat} (h : f.Reaches n d s) :
    Relation.ReflTransGen (fun i j => f.parent? i = some j) d s := by
  induction h with
  | here => exact .refl
  | outward _ hparent _ ih => exact .head hparent ih

/-- A scope that is reached is the owner, or lies before it. -/
theorem Reaches.eq_or_isNearer {f : Forest} {n : String} {d s o : Nat} (h : f.Reaches n d s)
    (ho : f.Owns n o d) : s = o ∨ f.IsNearer d s o := by
  have hfar : s = o ∨ Relation.TransGen (fun i j => f.parent? i = some j) s o := by
    obtain ⟨hreach, hbinds⟩ := ho
    induction h with
    | here =>
      cases hreach with
      | here => exact .inl rfl
      | outward _ hparent hrest => exact .inr (.head' hparent hrest.reflTransGen)
    | outward hnot hparent _ ih =>
      cases hreach with
      | here => rw [hnot] at hbinds; cases hbinds
      | outward _ hparent' hrest' =>
        -- both ways out go on with the same scope
        rw [hparent] at hparent'
        cases hparent'
        exact ih hrest'
  exact hfar.imp_right fun hfar => ⟨h.reflTransGen, hfar⟩

/-! ## §2. Owners that stay. -/

section Owner

variable {f g : Forest} {n : String}

/-- The way to a scope is open as long as the scopes on it bind what they bound. -/
theorem Reaches.stays (hfg : f.Stays g) {d s : Nat} (h : f.Reaches n d s)
    (hbinds : ∀ e, f.Reaches n d e → e ≠ s → (g.scope e).binds n = (f.scope e).binds n) :
    g.Reaches n d s := by
  induction h with
  | here => exact .here
  | @outward d p s hnot hparent _ ih =>
    by_cases hds : d = s
    · rw [hds]
      exact .here
    · refine .outward ?_ (hfg _ _ hparent) (ih fun e he => hbinds e (.outward hnot hparent he))
      rw [hbinds d .here hds, hnot]

/-- An owner stays one if every scope binds what it bound. -/
theorem Owns.stays (hfg : f.Stays g) {d o : Nat} (h : f.Owns n o d)
    (hbinds : ∀ e, f.Reaches n d e → (g.scope e).binds n = (f.scope e).binds n) :
    g.Owns n o d where
  reached := h.reached.stays hfg fun e he _ => hbinds e he
  binds := (hbinds o h.reached).trans h.binds

end Owner

/-! ## §3. One request. -/

section Request

variable {f : Forest} {n : String}

theorem lt_size_of_parent? {i j : Nat} (h : f.parent? i = some j) : i < f.size := by
  by_contra hi
  have hnone : f.places[i]? = none := List.getElem?_eq_none (Nat.le_of_not_lt hi)
  unfold parent? path at h
  rw [hnone] at h
  cases h

theorem lt_size_of_binds {e : Nat} (h : (f.scope e).binds n = true) : e < f.size := by
  by_contra he
  have hnone : f.places[e]? = none := List.getElem?_eq_none (Nat.le_of_not_lt he)
  unfold scope at h
  rw [hnone] at h
  cases h

/-- Only scopes that are there see anything. -/
theorem Owns.lt_size {o d : Nat} (h : f.Owns n o d) : d < f.size := by
  obtain ⟨hreach, hbinds⟩ := h
  cases hreach with
  | here => exact lt_size_of_binds hbinds
  | outward _ hparent _ => exact lt_size_of_parent? hparent

theorem stays_push (f : Forest) (outward : List Nat) : f.Stays (f.push outward) := by
  intro i j h
  unfold parent? at h ⊢
  rw [path_push f outward (lt_size_of_parent? h)]
  exact h

theorem stays_define (f : Forest) (s : Nat) (m : String) (v : Value) :
    f.Stays (f.define s m v) := by
  intro i j h
  rw [parent?_define]
  exact h

/-- A new scope binds nothing. -/
theorem scope_push_eq (f : Forest) (outward : List Nat) (e : Nat) :
    (f.push outward).scope e = f.scope e := by
  rcases Nat.lt_trichotomy e f.size with he | rfl | he
  · exact scope_push f outward he
  · rw [scope_push_size]
    have hnone : f.places[f.size]? = none := List.getElem?_eq_none (Nat.le_refl _)
    unfold scope
    rw [hnone]
  · have hnone : f.places[e]? = none := List.getElem?_eq_none (Nat.le_of_lt he)
    have hnone' : (f.push outward).places[e]? = none := by
      refine List.getElem?_eq_none ?_
      have hsize := size_push f outward
      unfold size at hsize he
      omega
    unfold scope
    rw [hnone, hnone']

theorem binds_define {s : Nat} (hs : s < f.size) (m : String) (v : Value) (e : Nat) :
    ((f.define s m v).scope e).binds n
      = if e = s then n == m || (f.scope s).binds n else (f.scope e).binds n := by
  rw [scope_define hs]
  split
  · exact Scope.binds_insert ..
  · rfl

/-- **A definition** in a scope that lies before the owner makes it the owner. -/
theorem Owns.define {d o s : Nat} (h : f.Owns n o d) (hs : s < f.size) (m : String) (v : Value) :
    (f.define s m v).Owns n o d
      ∨ m = n ∧ (f.define s m v).Owns n s d ∧ f.IsNearer d s o := by
  have hstays := stays_define f s m v
  by_cases hm : m = n
  · subst hm
    by_cases hreach : f.Reaches m d s
    · -- the owner is now `s`, which may be what it was
      have hbinds : ∀ e, f.Reaches m d e → e ≠ s →
          ((f.define s m v).scope e).binds m = (f.scope e).binds m := by
        intro e _ hes
        rw [binds_define hs, if_neg hes]
      have hown : (f.define s m v).Owns m s d :=
        ⟨hreach.stays hstays hbinds, by rw [binds_define hs]; simp⟩
      rcases hreach.eq_or_isNearer h with rfl | hnear
      · exact .inl hown
      · exact .inr ⟨rfl, hown, hnear⟩
    · refine .inl (h.stays hstays fun e he => ?_)
      rw [binds_define hs, if_neg]
      rintro rfl
      exact hreach he
  · refine .inl (h.stays hstays fun e _ => ?_)
    rw [binds_define hs]
    split
    · next hes => simp [hes, Ne.symm hm]
    · rfl

/-- An assignment changes no scope's names. -/
theorem binds_assign {s o : Nat} {m : String} (h : f.owner? s m = some o) (v : Value) (e : Nat) :
    ((f.define o m v).scope e).binds n = (f.scope e).binds n := by
  have hbinds : (f.scope o).binds m = true := by simpa using List.find?_some h
  rw [binds_define (lt_size_of_binds hbinds)]
  split
  · next heo =>
    rw [heo]
    by_cases hn : n = m
    · simp [hn, hbinds]
    · simp [hn]
  · rfl

/-- No request moves a scope. -/
theorem stays_answer (f : Forest) (r : Request) : f.Stays (f.answer r).2 := by
  cases r with
  | outermost => exact stays_push f []
  | child i => exact stays_push f (f.path i)
  | define i m v => exact stays_define f i m v
  | get i t =>
    rw [answer]
    cases f.get? i t.lexeme <;> exact fun _ _ h => h
  | assign i t v =>
    rw [answer, assign?]
    cases f.owner? i t.lexeme with
    | none => exact fun _ _ h => h
    | some o => exact stays_define f o t.lexeme v
  | isDefined i m => exact fun _ _ h => h

/-- **One request.**  Whoever owns a name goes on owning it, unless the request
defines the name in a scope that lies before. -/
theorem Owns.answer {d o : Nat} (h : f.Owns n o d) {r : Request} (hr : r.IsIn f) :
    (f.answer r).2.Owns n o d
      ∨ ∃ s v, r = .define s n v ∧ (f.answer r).2.Owns n s d ∧ (f.answer r).2.IsNearer d s o := by
  have hstays := stays_answer f r
  cases r with
  | outermost => exact .inl (h.stays hstays fun e _ => by rw [← scope_push_eq f []]; rfl)
  | child i => exact .inl (h.stays hstays fun e _ => by rw [← scope_push_eq f (f.path i)]; rfl)
  | define i m v =>
    rcases h.define (hr i rfl) m v with hown | ⟨rfl, hown, hnear⟩
    · exact .inl hown
    · exact .inr ⟨i, v, rfl, hown, hnear.mono hstays⟩
  | get i t =>
    left
    rw [Forest.answer]
    cases f.get? i t.lexeme <;> exact h
  | assign i t v =>
    left
    rw [Forest.answer, assign?]
    cases howner : f.owner? i t.lexeme with
    | none => exact h
    | some o' =>
      exact h.stays (stays_define f o' t.lexeme v) fun e _ => binds_assign howner v e
  | isDefined i m => exact .inl h

end Request

/-! ## §4. Requests one after another. -/

/-- Requests through scopes that are there, one after another, those that fail
included, lead from one forest to another. -/
inductive Runs : Forest → List Request → Forest → Prop where
  | done {f : Forest} : Runs f [] f
  | ask {f g : Forest} {r : Request} {rs : List Request} :
      r.IsIn f → Runs (f.answer r).2 rs g → Runs f (r :: rs) g

theorem Runs.isLinked {f g : Forest} {rs : List Request} (h : f.Runs rs g) (hf : f.IsLinked) :
    g.IsLinked := by
  induction h with
  | done => exact hf
  | ask hr _ ih => exact ih (isLinked_answer hf hr)

theorem Runs.stays {f g : Forest} {rs : List Request} (h : f.Runs rs g) : f.Stays g := by
  induction h with
  | done => exact fun _ _ h => h
  | @ask f g r rs _ _ ih => exact fun i j hij => ih i j (stays_answer f r i j hij)

/-- **All requests.**  The owner at the end is the one at the start, or a nearer
one in which the name was defined on the way. -/
theorem Runs.exists_owns {f g : Forest} {rs : List Request} (h : f.Runs rs g) {n : String}
    {d o : Nat} (ho : f.Owns n o d) :
    ∃ o', g.Owns n o' d ∧ (o' = o ∨ g.IsNearer d o' o ∧ ∃ v, .define o' n v ∈ rs) := by
  induction h generalizing o with
  | done => exact ⟨o, ho, .inl rfl⟩
  | @ask f g r rs hr hrun ih =>
    rcases ho.answer hr with hown | ⟨s, v, rfl, hown, hnear⟩
    · obtain ⟨o', ho', hmoved⟩ := ih hown
      refine ⟨o', ho', hmoved.imp_right ?_⟩
      rintro ⟨hnear, w, hmem⟩
      exact ⟨hnear, w, List.mem_cons_of_mem _ hmem⟩
    · have hnear' := hnear.mono hrun.stays
      obtain ⟨o', ho', rfl | ⟨hnear'', w, hmem⟩⟩ := ih hown
      · exact ⟨o', ho', .inr ⟨hnear', v, List.mem_cons_self⟩⟩
      · exact ⟨o', ho', .inr ⟨hnear''.trans hnear', w, List.mem_cons_of_mem _ hmem⟩⟩

/-! ## §5. Names that stay seen. -/

/-- What requests that lead from `f` to `g` leave of a name that `d` sees. -/
structure StaysSeen (f : Forest) (rs : List Request) (g : Forest) (d : Nat) (n : String) :
    Prop where
  isDefined : g.answer (.isDefined d n) = (.ok (.defined true), g)
  get : ∀ t : Token, t.lexeme = n → ∃ v, g.answer (.get d t) = (.ok (.value v), g)
  assign : ∀ (t : Token) v, t.lexeme = n → ∃ g', g.answer (.assign d t v) = (.ok .done, g')
  /-- The owner is the one that it was, or a nearer one that got the name. -/
  owner : ∀ o, f.Owns n o d →
    ∃ o', g.Owns n o' d ∧ (o' = o ∨ g.IsNearer d o' o ∧ ∃ v, .define o' n v ∈ rs)
  /-- The next request changes the owner to a nearer one, by a definition, or
  not at all. -/
  next : ∀ r : Request, r.IsIn g → ∀ o o', g.Owns n o d → (g.answer r).2.Owns n o' d → o' ≠ o →
    (g.answer r).2.IsNearer d o' o ∧ ∃ v, r = .define o' n v

/-- A name that is defined in a scope has an owner there. -/
theorem exists_owns_of_isDefined {f : Forest} (hf : f.IsLinked) {d : Nat} {n : String}
    (h : f.answer (.isDefined d n) = (.ok (.defined true), f)) : ∃ o, f.Owns n o d := by
  rw [answer_isDefined] at h
  have hview : (f.view d n).isSome = true := Reply.defined.inj (Except.ok.inj (Prod.mk.inj h).1)
  have hd : d < f.size := by
    by_contra hd
    have hnone : f.places[d]? = none := List.getElem?_eq_none (Nat.le_of_not_lt hd)
    unfold view path at hview
    rw [hnone] at hview
    cases hview
  obtain ⟨v, hv⟩ := Option.isSome_iff_exists.1 hview
  obtain ⟨o, ho, -⟩ := (view_eq_some_iff hf hd n v).1 hv
  exact ⟨o, ho⟩

/-- **VISIBILITY ONLY GROWS.**  A name that is defined in a scope is defined
there behind whatever requests follow, so look-ups and assignments through
this scope do not fail, and definitions alone can change its owner, to a
nearer one. -/
theorem staysSeen_of_isDefined {f g : Forest} (hf : f.IsLinked) {rs : List Request}
    (hrun : f.Runs rs g) {d : Nat} {n : String}
    (hdefined : f.answer (.isDefined d n) = (.ok (.defined true), f)) :
    f.StaysSeen rs g d n := by
  have hg : g.IsLinked := hrun.isLinked hf
  obtain ⟨o, ho⟩ := exists_owns_of_isDefined hf hdefined
  obtain ⟨o', ho', -⟩ := hrun.exists_owns ho
  have hd : d < g.size := ho'.lt_size
  -- the owner behind the requests has a value for `d` to see
  obtain ⟨v, hv⟩ := Option.isSome_iff_exists.1 ho'.binds
  have hview : g.view d n = some v := (view_eq_some_iff hg hd n v).2 ⟨o', ho', hv⟩
  refine ⟨?_, ?_, ?_, fun o ho => hrun.exists_owns ho, ?_⟩
  · rw [answer_isDefined, hview]
    rfl
  · rintro t rfl
    exact ⟨v, by rw [answer_get, hview]; rfl⟩
  · rintro t w rfl
    obtain ⟨o'', -, -, hanswer⟩ := exists_answer_assign hg hd t w (by rw [hview]; rfl)
    exact ⟨_, hanswer⟩
  · intro r hr p p' hp hp' hne
    rcases hp.answer hr with hstill | ⟨s, w, hdefine, hs, hnear⟩
    · exact absurd (hp'.unique hstill) hne
    · obtain rfl := hp'.unique hs
      exact ⟨hnear, w, hdefine⟩

/-- A scope inside one that binds `a`. -/
def plainForest : Forest := (root.define 0 "a" .nil).nest 0

/-- A look-up that fails, an assignment further out, a definition in the inner
scope, and a scope inside that one. -/
def hidingRequests : List Request :=
  [.get 1 ⟨.identifier, "b", .name "b", 1⟩,
    .assign 1 ⟨.identifier, "a", .name "a", 1⟩ (.truth true), .define 1 "a" .nil, .child 1]

/-- The third of the requests changes the owner. -/
theorem staysSeen_of_isDefined_hidden :
    plainForest.IsLinked
      ∧ plainForest.answer (.isDefined 1 "a") = (.ok (.defined true), plainForest)
      ∧ ∃ g, plainForest.Runs hidingRequests g ∧ plainForest.StaysSeen hidingRequests g 1 "a"
        ∧ plainForest.Owns "a" 0 1 ∧ g.Owns "a" 1 1 := by
  have hin : ∀ (f : Forest) (i : Nat), i < f.size → ∀ j ∈ some i, j < f.size := by
    intro f i hi j hj
    cases hj
    exact hi
  have hroot : root.IsLinked := isLinked_answer (f := ⟨[]⟩) (r := .outermost) nofun nofun
  have hlinked : plainForest.IsLinked :=
    isLinked_push (isLinked_define _ _ hroot) (.inr ⟨0, by decide, rfl⟩)
  have hrun : plainForest.Runs hidingRequests _ :=
    .ask (hin _ 1 (by decide)) <| .ask (hin _ 1 (by decide)) <| .ask (hin _ 1 (by decide)) <|
      .ask (hin _ 1 (by decide)) .done
  exact ⟨hlinked, rfl, _, hrun, staysSeen_of_isDefined hlinked hrun rfl,
    ⟨.outward rfl rfl .here, rfl⟩, ⟨.here, rfl⟩⟩

end Forest
end LoxScript
