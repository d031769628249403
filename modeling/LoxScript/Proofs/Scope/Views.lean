/-
  LoxScript.Proofs.Scope.Views
  ────────────────────────────────
  What a forest of scopes is, seen through its names.

  The *view* of a scope gives every name the value that it has in the nearest
  scope on the way out which binds it, its *owner* there.  Scopes are shared:
  a write through one of them is seen by all that lie further in, unless a
  scope between them binds the name itself.  So what a write does is said by
  one relation, `Reaches`, and no view but the ones it names is changed:

      define in s    — the scopes that reach `s`
      assign at s    — the scopes with the owner that `s` has
      child of s     — the new scope, which sees what `s` sees

  The proofs go out from a scope to the one around it, which has a smaller
  number (`IsLinked`).  For a forest that requests have made this holds at any
  time, because no request moves a scope.
-/
import LoxScript.Scope.Chain
import LoxScript.Scope.Forest
import Mathlib

namespace LoxScript
namespace Forest

/-! ## §1. The way out. -/

/-- How many scopes there are. -/
def size (f : Forest) : Nat := f.places.length

/-- Every scope is outermost, or right inside one with a smaller number. -/
def IsLinked (f : Forest) : Prop :=
  ∀ i p, f.places[i]? = some p → p.outward = [] ∨ ∃ j, j < i ∧ p.outward = f.path j

theorem path_of_lt {f : Forest} {i : Nat} (hi : i < f.size) :
    ∃ p, f.places[i]? = some p ∧ f.path i = i :: p.outward := by
  have hp : f.places[i]? = some f.places[i] := List.getElem?_eq_getElem hi
  refine ⟨_, hp, ?_⟩
  unfold path
  rw [hp]

/-- One step of the way out. -/
theorem path_cases {f : Forest} (hf : f.IsLinked) {i : Nat} (hi : i < f.size) :
    (f.parent? i = none ∧ f.path i = [i])
      ∨ ∃ j, j < i ∧ f.parent? i = some j ∧ f.path i = i :: f.path j := by
  obtain ⟨p, hp, hpath⟩ := path_of_lt hi
  unfold parent?
  rw [hpath, List.tail_cons]
  rcases hf i p hp with hout | ⟨j, hj, hout⟩
  · left
    rw [hout]
    exact ⟨rfl, rfl⟩
  · right
    obtain ⟨q, -, hq⟩ := path_of_lt (Nat.lt_trans hj hi)
    refine ⟨j, hj, ?_, by rw [hout]⟩
    rw [hout, hq]
    rfl

/-- Nothing but scopes of the forest is on the way out. -/
theorem lt_of_mem_path {f : Forest} (hf : f.IsLinked) {i j : Nat} (hi : i < f.size)
    (hj : j ∈ f.path i) : j < f.size := by
  induction i using Nat.strong_induction_on with
  | h i ih =>
    rcases path_cases hf hi with ⟨-, hpath⟩ | ⟨k, hk, -, hpath⟩
    · rw [hpath, List.mem_singleton] at hj
      omega
    · rw [hpath, List.mem_cons] at hj
      rcases hj with rfl | hj
      · exact hi
      · exact ih k hk (by omega) hj

/-! ## §2. Views. -/

/-- The value that a name has in the nearest scope which binds it. -/
def view (f : Forest) (d : Nat) (n : String) : Option Value := lookIn n ((f.path d).map f.scope)

/-- The way out from `d` meets `s`, and no scope before `s` binds the name. -/
inductive Reaches (f : Forest) (n : String) : Nat → Nat → Prop where
  | here {s : Nat} : Reaches f n s s
  | outward {d p s : Nat} :
      (f.scope d).binds n = false → f.parent? d = some p → Reaches f n p s → Reaches f n d s

/-- The scope `o` is the nearest one around `d`, or `d` itself, that binds the name. -/
structure Owns (f : Forest) (n : String) (o d : Nat) : Prop where
  reached : f.Reaches n d o
  binds : (f.scope o).binds n = true

/-- A scope that binds the name ends the search for it. -/
theorem Reaches.eq_of_binds {f : Forest} {n : String} {d s : Nat} (h : f.Reaches n d s)
    (hd : (f.scope d).binds n = true) : s = d := by
  cases h with
  | here => rfl
  | outward hnot => rw [hd] at hnot; cases hnot

theorem Owns.unique {f : Forest} {n : String} {o o' d : Nat} (h : f.Owns n o d)
    (h' : f.Owns n o' d) : o = o' := by
  obtain ⟨hreach, hbinds⟩ := h
  obtain ⟨hreach', hbinds'⟩ := h'
  induction hreach with
  | here => exact (hreach'.eq_of_binds hbinds).symm
  | outward hnot hparent _ ih =>
    cases hreach' with
    | here => rw [hnot] at hbinds'; cases hbinds'
    | outward _ hparent' hrest' =>
      -- both ways out go on with the same scope
      rw [hparent] at hparent'
      cases hparent'
      exact ih hbinds hrest'

section Look

variable {f : Forest} {n : String}

theorem binds_eq_false_iff (s : Scope) (n : String) : s.binds n = false ↔ s.get? n = none := by
  unfold Scope.binds
  cases s.get? n <;> simp

/-- A view is the scope's own binding, or else what the scope around it sees. -/
theorem view_eq (hf : f.IsLinked) {d : Nat} (hd : d < f.size) (n : String) :
    f.view d n = ((f.scope d).get? n).or ((f.parent? d).bind fun p => f.view p n) := by
  unfold view
  rcases path_cases hf hd with ⟨hparent, hpath⟩ | ⟨j, -, hparent, hpath⟩
  · rw [hpath, hparent]
    rfl
  · rw [hpath, hparent]
    rfl

theorem view_of_get? (hf : f.IsLinked) {d : Nat} (hd : d < f.size) {v : Value}
    (h : (f.scope d).get? n = some v) : f.view d n = some v := by
  rw [view_eq hf hd, h, Option.some_or]

theorem view_of_binds_eq_false (hf : f.IsLinked) {d : Nat} (hd : d < f.size)
    (h : (f.scope d).binds n = false) :
    f.view d n = (f.parent? d).bind fun p => f.view p n := by
  rw [view_eq hf hd, (binds_eq_false_iff _ _).1 h, Option.none_or]

theorem parent?_lt (hf : f.IsLinked) {d p : Nat} (hd : d < f.size) (h : f.parent? d = some p) :
    p < d := by
  rcases path_cases hf hd with ⟨hnone, -⟩ | ⟨j, hj, hsome, -⟩
  · rw [hnone] at h
    cases h
  · rw [hsome] at h
    cases h
    exact hj

/-- **The owner** of a name says what the view gives it. -/
theorem view_eq_some_iff (hf : f.IsLinked) {d : Nat} (hd : d < f.size) (n : String) (v : Value) :
    f.view d n = some v ↔ ∃ o, f.Owns n o d ∧ (f.scope o).get? n = some v := by
  -- outward from `d`
  induction d using Nat.strong_induction_on with
  | h d ih =>
    cases hown : (f.scope d).get? n with
    | some w =>
      have hbinds : (f.scope d).binds n = true := by rw [Scope.binds, hown]; rfl
      rw [view_of_get? hf hd hown]
      constructor
      · intro h
        exact ⟨d, ⟨.here, hbinds⟩, hown.trans h⟩
      · rintro ⟨o, ho, hv⟩
        rw [ho.reached.eq_of_binds hbinds, hown] at hv
        exact hv
    | none =>
      have hnot : (f.scope d).binds n = false := (binds_eq_false_iff _ _).2 hown
      rw [view_of_binds_eq_false hf hd hnot]
      constructor
      · intro h
        obtain ⟨p, hp, hv⟩ := Option.bind_eq_some_iff.1 h
        have hlt := parent?_lt hf hd hp
        obtain ⟨o, ho, hov⟩ := (ih p hlt (by omega)).1 hv
        exact ⟨o, ⟨.outward hnot hp ho.reached, ho.binds⟩, hov⟩
      · rintro ⟨o, ⟨hreach, hbinds⟩, hov⟩
        cases hreach with
        | here => rw [hnot] at hbinds; cases hbinds
        | outward _ hp hrest =>
          have hlt := parent?_lt hf hd hp
          exact Option.bind_eq_some_iff.2
            ⟨_, hp, (ih _ hlt (by omega)).2 ⟨o, ⟨hrest, hbinds⟩, hov⟩⟩

/-- The search for an owner finds it. -/
theorem owner?_eq_some_iff (hf : f.IsLinked) {d : Nat} (hd : d < f.size) (n : String) (o : Nat) :
    f.owner? d n = some o ↔ f.Owns n o d := by
  induction d using Nat.strong_induction_on with
  | h d ih =>
    have hfirst : ∀ rest, f.path d = d :: rest → f.owner? d n
        = if (f.scope d).binds n then some d else rest.find? fun j => (f.scope j).binds n := by
      intro rest hpath
      unfold owner?
      rw [hpath, List.find?_cons]
      cases (f.scope d).binds n <;> rfl
    by_cases hbinds : (f.scope d).binds n = true
    · obtain ⟨p, -, hpath⟩ := path_of_lt hd
      rw [hfirst _ hpath, if_pos hbinds]
      constructor
      · intro h
        cases h
        exact ⟨.here, hbinds⟩
      · intro h
        rw [h.reached.eq_of_binds hbinds]
    · have hnot : (f.scope d).binds n = false := by simpa using hbinds
      rcases path_cases hf hd with ⟨hparent, hpath⟩ | ⟨p, hlt, hparent, hpath⟩
      · rw [hfirst _ hpath, if_neg hbinds]
        constructor
        · intro h
          cases h
        · rintro ⟨hreach, hown⟩
          cases hreach with
          | here => exact absurd hown hbinds
          | outward _ hp _ => rw [hparent] at hp; cases hp
      · rw [hfirst _ hpath, if_neg hbinds]
        show f.owner? p n = some o ↔ _
        rw [ih p hlt (by omega)]
        constructor
        · intro h
          exact ⟨.outward hnot hparent h.reached, h.binds⟩
        · rintro ⟨hreach, hown⟩
          cases hreach with
          | here => exact absurd hown hbinds
          | outward _ hp hrest =>
            rw [hparent] at hp
            cases hp
            exact ⟨hrest, hown⟩

/-- A look-up is the view. -/
theorem get?_eq_view (f : Forest) (d : Nat) (n : String) : f.get? d n = f.view d n := by
  unfold get? owner? view
  induction f.path d with
  | nil => rfl
  | cons j js ih =>
    rw [List.find?_cons, List.map_cons, lookIn]
    cases hbinds : (f.scope j).binds n with
    | true =>
      obtain ⟨v, hv⟩ := Option.isSome_iff_exists.1 hbinds
      show (f.scope j).get? n = _
      rw [hv, Option.some_or]
    | false =>
      rw [(binds_eq_false_iff _ _).1 hbinds, Option.none_or]
      exact ih

theorem sees_eq_isSome_view (f : Forest) (d : Nat) (n : String) :
    f.sees d n = (f.view d n).isSome := by
  rw [← get?_eq_view]
  unfold sees get?
  cases howner : f.owner? d n with
  | none => rfl
  | some o =>
    have hbinds : (f.scope o).binds n = true := by
      simpa using List.find?_some howner
    exact hbinds.symm

end Look

/-! ## §3. A definition. -/

/-- What a definition or an assignment does to views: it gives a name a value
in some scopes, and nothing else. -/
structure Sets (f g : Forest) (n : String) (v : Value) (who : Nat → Prop) : Prop where
  size : g.size = f.size
  seen : ∀ d, d < f.size → who d → g.view d n = some v
  hidden : ∀ d, d < f.size → ¬ who d → g.view d n = f.view d n
  others : ∀ d, d < f.size → ∀ m, m ≠ n → g.view d m = f.view d m

section Define

variable {f : Forest} {s : Nat} (hs : s < f.size) (n : String) (v : Value)

theorem size_define (f : Forest) (s : Nat) : (f.define s n v).size = f.size :=
  List.length_modify ..

/-- No request moves a scope. -/
theorem path_define (f : Forest) (s d : Nat) : (f.define s n v).path d = f.path d := by
  unfold path define
  rw [List.getElem?_modify]
  cases f.places[d]? with
  | none => rfl
  | some p =>
    by_cases hd : s = d
    · simp [hd]
    · simp [hd]

theorem parent?_define (f : Forest) (s d : Nat) :
    (f.define s n v).parent? d = f.parent? d := by
  unfold parent?
  rw [path_define]

include hs in
theorem scope_define (d : Nat) :
    (f.define s n v).scope d = if d = s then (f.scope s).insert n v else f.scope d := by
  have hplace : f.places[s]? = some f.places[s] := List.getElem?_eq_getElem hs
  unfold scope define
  rw [List.getElem?_modify]
  by_cases hd : d = s
  · rw [if_pos hd, hd, hplace]
    simp
  · rw [if_neg hd]
    cases f.places[d]? <;> simp [Ne.symm hd]

theorem isLinked_define (hf : f.IsLinked) : (f.define s n v).IsLinked := by
  intro i p hp
  have hmodify : (f.define s n v).places[i]? = f.places[i]?.map
      fun p => if s = i then { p with scope := p.scope.insert n v } else p := by
    unfold define
    rw [List.getElem?_modify]
    by_cases hi : s = i <;> simp [hi]
  rw [hmodify] at hp
  obtain ⟨q, hq, rfl⟩ := Option.map_eq_some_iff.1 hp
  have hout : (if s = i then { q with scope := q.scope.insert n v } else q).outward
      = q.outward := by
    split <;> rfl
  rw [hout]
  rcases hf i q hq with h | ⟨j, hj, h⟩
  · exact .inl h
  · exact .inr ⟨j, hj, by rw [path_define, h]⟩

include hs in
/-- **A definition** is seen by the scopes that reach it. -/
theorem sets_define (hf : f.IsLinked) :
    f.Sets (f.define s n v) n v fun d => f.Reaches n d s := by
  have hg := isLinked_define (s := s) n v hf
  have hsize := size_define n v f s
  refine ⟨hsize, ?_, ?_, ?_⟩
  · intro d hd hreach
    -- along the way out to `s`, where nothing binds the name
    induction hreach with
    | here => exact view_of_get? hg (by omega) (by rw [scope_define hs, if_pos rfl]; simp)
    | @outward d p s hnot hp _ ih =>
      by_cases hds : d = s
      · subst hds
        exact view_of_get? hg (by omega) (by rw [scope_define hs, if_pos rfl]; simp)
      · have hnot' : ((f.define s n v).scope d).binds n = false := by
          rw [scope_define hs, if_neg hds, hnot]
        have hlt := parent?_lt hf hd hp
        rw [view_of_binds_eq_false hg (by omega) hnot', parent?_define, hp]
        exact ih hs hg hsize (by omega)
  · intro d hd hnot
    induction d using Nat.strong_induction_on with
    | h d ih =>
      have hds : d ≠ s := by
        rintro rfl
        exact hnot .here
      rw [view_eq hg (by omega), view_eq hf hd, scope_define hs, if_neg hds, parent?_define]
      -- the scope itself binds the name, or the one around it does not reach `s` either
      cases hown : (f.scope d).get? n with
      | some w => rfl
      | none =>
        cases hp : f.parent? d with
        | none => rfl
        | some p =>
          have hlt := parent?_lt hf hd hp
          have hrest : ¬ f.Reaches n p s := fun h =>
            hnot (.outward ((binds_eq_false_iff _ _).2 hown) hp h)
          show (none : Option Value).or ((f.define s n v).view p n) = none.or (f.view p n)
          rw [ih p hlt (by omega) hrest]
  · intro d hd m hm
    induction d using Nat.strong_induction_on with
    | h d ih =>
      have hget : ((f.define s n v).scope d).get? m = (f.scope d).get? m := by
        rw [scope_define hs]
        by_cases hds : d = s
        · rw [if_pos hds, Scope.get?_insert, if_neg hm, hds]
        · rw [if_neg hds]
      rw [view_eq hg (by omega), view_eq hf hd, hget, parent?_define]
      cases hp : f.parent? d with
      | none => rfl
      | some p =>
        have hlt := parent?_lt hf hd hp
        show ((f.scope d).get? m).or ((f.define s n v).view p m) = _
        rw [ih p hlt (by omega)]
        rfl

end Define

/-! ## §4. A new scope. -/

section Nest

variable (f : Forest) (outward : List Nat)

/-- A forest with one more scope. -/
def push : Forest := ⟨f.places ++ [⟨Scope.empty, outward⟩]⟩

theorem size_push : (f.push outward).size = f.size + 1 := by
  unfold size push
  rw [List.length_append]
  rfl

theorem path_push {d : Nat} (hd : d < f.size) : (f.push outward).path d = f.path d := by
  unfold path push
  rw [List.getElem?_append_left hd]

theorem path_push_size : (f.push outward).path f.size = f.size :: outward := by
  unfold path push size
  rw [List.getElem?_concat_length]

theorem scope_push {d : Nat} (hd : d < f.size) : (f.push outward).scope d = f.scope d := by
  unfold scope push
  rw [List.getElem?_append_left hd]

theorem scope_push_size : (f.push outward).scope f.size = Scope.empty := by
  unfold scope push size
  rw [List.getElem?_concat_length]

variable {f outward} (hf : f.IsLinked)
include hf

theorem isLinked_push (hout : outward = [] ∨ ∃ j, j < f.size ∧ outward = f.path j) :
    (f.push outward).IsLinked := by
  intro i p hp
  have hi : i < f.size + 1 := by
    have hlt := (List.getElem?_eq_some_iff.1 hp).1
    have hsize := size_push f outward
    unfold size at hsize ⊢
    omega
  by_cases hlast : i = f.size
  · subst hlast
    have hplace : p = ⟨Scope.empty, outward⟩ := by
      unfold push size at hp
      rw [List.getElem?_concat_length] at hp
      exact (Option.some.inj hp).symm
    rw [hplace]
    rcases hout with h | ⟨j, hj, h⟩
    · exact .inl h
    · exact .inr ⟨j, hj, by rw [path_push f outward hj, h]⟩
  · have hlt : i < f.size := by omega
    have hold : f.places[i]? = some p := by
      unfold push at hp
      rwa [List.getElem?_append_left hlt] at hp
    rcases hf i p hold with h | ⟨j, hj, h⟩
    · exact .inl h
    · exact .inr ⟨j, hj, by rw [path_push f outward (by omega), h]⟩

/-- The scopes of a way out are what they were. -/
theorem map_scope_push {d : Nat} (hd : d < f.size) :
    (f.path d).map (f.push outward).scope = (f.path d).map f.scope :=
  List.map_congr_left fun _ hj => scope_push f outward (lt_of_mem_path hf hd hj)

theorem view_push {d : Nat} (hd : d < f.size) : (f.push outward).view d = f.view d := by
  funext n
  unfold view
  rw [path_push f outward hd, map_scope_push hf hd]

/-- A new scope hides nothing of what is around it. -/
theorem view_push_size {d : Nat} (hd : d < f.size) :
    (f.push (f.path d)).view f.size = f.view d := by
  funext n
  unfold view
  rw [path_push_size, List.map_cons, lookIn, scope_push_size, map_scope_push hf hd]
  rfl

omit hf in
theorem parent?_push_size {d : Nat} (hd : d < f.size) :
    (f.push (f.path d)).parent? f.size = some d := by
  obtain ⟨p, -, hpath⟩ := path_of_lt hd
  unfold parent?
  rw [path_push_size, hpath]
  rfl

end Nest

/-! ## §5. Requests one after another. -/

/-- The scope that a request is made through. -/
def Request.through? : Request → Option Nat
  | .outermost => none
  | .child i | .define i _ _ | .get i _ | .assign i _ _ | .isDefined i _ => some i

/-- A request through a scope that is there. -/
def Request.IsIn (r : Request) (f : Forest) : Prop := ∀ i ∈ r.through?, i < f.size

/-- A forest that requests have made, the ones that failed included. -/
inductive IsGrown : Forest → Prop where
  | bare : IsGrown ⟨[]⟩
  | answer {f : Forest} {r : Request} : IsGrown f → r.IsIn f → IsGrown (f.answer r).2

/-- One request. -/
theorem isLinked_answer {f : Forest} (hf : f.IsLinked) {r : Request} (hr : r.IsIn f) :
    (f.answer r).2.IsLinked := by
  cases r with
  | outermost => exact isLinked_push hf (.inl rfl)
  | child i => exact isLinked_push hf (.inr ⟨i, hr i rfl, rfl⟩)
  | define i n v => exact isLinked_define n v hf
  | get i t =>
    rw [answer]
    cases f.get? i t.lexeme <;> exact hf
  | assign i t v =>
    rw [answer, assign?]
    cases f.owner? i t.lexeme with
    | none => exact hf
    | some o => exact isLinked_define t.lexeme v hf
  | isDefined i n => exact hf

/-- **All requests.** -/
theorem IsGrown.isLinked {f : Forest} (h : f.IsGrown) : f.IsLinked := by
  induction h with
  | bare =>
    intro i p hp
    cases hp
  | answer _ hr ih => exact isLinked_answer ih hr

/-- The replies to requests, and what these do, said with views alone. -/
structure FollowsViews (f : Forest) : Prop where
  view_iff : ∀ d, d < f.size → ∀ n v,
    f.view d n = some v ↔ ∃ o, f.Owns n o d ∧ (f.scope o).get? n = some v
  child : ∀ s, s < f.size → ∃ g, f.answer (.child s) = (.ok (.scope f.size), g)
    ∧ g.size = f.size + 1 ∧ g.parent? f.size = some s ∧ g.view f.size = f.view s
    ∧ ∀ d, d < f.size → g.view d = f.view d
  define : ∀ s, s < f.size → ∀ n v, ∃ g, f.answer (.define s n v) = (.ok .done, g)
    ∧ f.Sets g n v fun d => f.Reaches n d s
  assign : ∀ s, s < f.size → ∀ (t : Token) v, (f.view s t.lexeme).isSome →
    ∃ g o, f.answer (.assign s t v) = (.ok .done, g) ∧ f.Owns t.lexeme o s
      ∧ f.Sets g t.lexeme v (f.Owns t.lexeme o)
      ∧ ∀ d m, (g.scope d).binds m = (f.scope d).binds m
  assign_unbound : ∀ s, s < f.size → ∀ (t : Token) v, f.view s t.lexeme = none →
    f.answer (.assign s t v) = (.error ⟨.unboundName, t⟩, f)
  get : ∀ s, s < f.size → ∀ t : Token, f.answer (.get s t)
    = ((f.view s t.lexeme).elim (.error ⟨.unboundName, t⟩) fun v => .ok (.value v), f)
  /-- A look-up fails where the name is not defined, and where an assignment fails. -/
  get_error_iff : ∀ s, s < f.size → ∀ (t : Token) v,
    ((f.answer (.get s t)).1 = .error ⟨.unboundName, t⟩
      ↔ f.answer (.isDefined s t.lexeme) = (.ok (.defined false), f))
    ∧ ((f.answer (.get s t)).1 = .error ⟨.unboundName, t⟩
      ↔ (f.answer (.assign s t v)).1 = .error ⟨.unboundName, t⟩)

section Answer

variable {f : Forest} (hf : f.IsLinked) {s : Nat} (hs : s < f.size) (t : Token) (v : Value)

theorem answer_get (f : Forest) (s : Nat) : f.answer (.get s t)
    = ((f.view s t.lexeme).elim (.error ⟨.unboundName, t⟩) fun v => .ok (.value v), f) := by
  rw [answer, get?_eq_view]
  cases f.view s t.lexeme <;> rfl

theorem answer_isDefined (f : Forest) (s : Nat) (n : String) :
    f.answer (.isDefined s n) = (.ok (.defined (f.view s n).isSome), f) := by
  rw [answer, sees_eq_isSome_view]

include hf hs

/-- A name without a view has no owner to assign to. -/
theorem answer_assign_of_none (h : f.view s t.lexeme = none) :
    f.answer (.assign s t v) = (.error ⟨.unboundName, t⟩, f) := by
  have howner : f.owner? s t.lexeme = none := by
    cases ho : f.owner? s t.lexeme with
    | none => rfl
    | some o =>
      have hown := (owner?_eq_some_iff hf hs _ _).1 ho
      obtain ⟨w, hw⟩ := Option.isSome_iff_exists.1 hown.binds
      rw [(view_eq_some_iff hf hs _ _).2 ⟨o, hown, hw⟩] at h
      cases h
  rw [answer, assign?, howner]
  rfl

/-- An assignment is a definition in the owner. -/
theorem exists_answer_assign (h : (f.view s t.lexeme).isSome) :
    ∃ o, f.Owns t.lexeme o s ∧ o < f.size
      ∧ f.answer (.assign s t v) = (.ok .done, f.define o t.lexeme v) := by
  obtain ⟨w, hw⟩ := Option.isSome_iff_exists.1 h
  obtain ⟨o, hown, hget⟩ := (view_eq_some_iff hf hs _ _).1 hw
  have howner := (owner?_eq_some_iff hf hs _ _).2 hown
  have hmem : o ∈ f.path s := List.mem_of_find?_eq_some howner
  refine ⟨o, hown, lt_of_mem_path hf hs hmem, ?_⟩
  rw [answer, assign?, howner]
  rfl

end Answer

/-- A forest whose scopes are linked follows its views. -/
theorem IsLinked.followsViews {f : Forest} (hf : f.IsLinked) : f.FollowsViews where
  view_iff d hd n v := view_eq_some_iff hf hd n v
  child s hs := ⟨f.push (f.path s), rfl, size_push f _, parent?_push_size hs,
    view_push_size hf hs, fun d hd => view_push hf hd⟩
  define s hs n v := ⟨f.define s n v, rfl, sets_define hs n v hf⟩
  assign := by
    intro s hs t v h
    obtain ⟨o, hown, ho, hanswer⟩ := exists_answer_assign hf hs t v h
    obtain ⟨hsize, hseen, hhidden, hothers⟩ := sets_define ho t.lexeme v hf
    refine ⟨_, o, hanswer, hown, ⟨hsize, ?_, ?_, hothers⟩, ?_⟩
    · intro d hd hd'
      exact hseen d hd hd'.reached
    · intro d hd hd'
      -- who reaches the owner is owned by it
      exact hhidden d hd fun hreach => hd' ⟨hreach, hown.binds⟩
    · intro d m
      rw [scope_define ho]
      by_cases hd : d = o
      · rw [if_pos hd, hd, Scope.binds_insert]
        by_cases hm : m = t.lexeme
        · simp [hm, hown.binds]
        · simp [hm]
      · rw [if_neg hd]
  assign_unbound s hs t v h := answer_assign_of_none hf hs t v h
  get s _ t := answer_get t f s
  get_error_iff := by
    intro s hs t v
    rw [answer_get, answer_isDefined]
    cases h : f.view s t.lexeme with
    | none =>
      rw [answer_assign_of_none hf hs t v h]
      exact ⟨iff_of_true rfl rfl, Iff.rfl⟩
    | some w =>
      obtain ⟨o, -, -, hanswer⟩ := exists_answer_assign hf hs t v (by rw [h]; rfl)
      rw [hanswer]
      exact ⟨iff_of_false nofun nofun, iff_of_false nofun nofun⟩

/-- **SCOPES ARE THEIR VIEWS.**  Whatever requests have made a forest, the
replies to further requests and the views after them are determined by the
views, and by which scope is met on the way out from which. -/
theorem followsViews_of_isGrown {f : Forest} (h : f.IsGrown) : f.FollowsViews :=
  h.isLinked.followsViews

/-- Two scopes inside one that binds `a`, the first of which binds it too, and
a scope inside that one. -/
def shadowedForest : Forest :=
  [.outermost, .define 0 "a" .nil, .child 0, .child 0, .define 1 "a" (.text "i"), .child 1].foldl
    (fun f r => (f.answer r).2) ⟨[]⟩

/-- An assignment further out passes by the scopes that have an owner of their own. -/
theorem followsViews_of_isGrown_shadowed :
    shadowedForest.IsGrown ∧ shadowedForest.FollowsViews
      ∧ ∃ g, shadowedForest.answer (.assign 2 ⟨.identifier, "a", .name "a", 1⟩ (.text "o"))
            = (.ok .done, g)
        ∧ g.view 0 "a" = some (.text "o") ∧ g.view 2 "a" = some (.text "o")
        ∧ g.view 1 "a" = some (.text "i") ∧ g.view 3 "a" = some (.text "i") := by
  have hgrown : shadowedForest.IsGrown := by
    have hin : ∀ (f : Forest) (i : Nat), i < f.size → ∀ j ∈ some i, j < f.size := by
      intro f i hi j hj
      cases hj
      exact hi
    have h0 : IsGrown _ := .answer .bare (r := .outermost) nofun
    have h1 : IsGrown _ := h0.answer (r := .define 0 "a" .nil) (hin _ 0 (by decide))
    have h2 : IsGrown _ := h1.answer (r := .child 0) (hin _ 0 (by decide))
    have h3 : IsGrown _ := h2.answer (r := .child 0) (hin _ 0 (by decide))
    have h4 : IsGrown _ := h3.answer (r := .define 1 "a" (.text "i")) (hin _ 1 (by decide))
    exact h4.answer (r := .child 1) (hin _ 1 (by decide))
  exact ⟨hgrown, followsViews_of_isGrown hgrown, _, rfl, rfl, rfl, rfl, rfl⟩

end Forest
end LoxScript
