/-
  LoxScript.Scope
  ────────────────────────────────
  One scope: a finite map from names to values.

  The bindings are kept in ascending order of their names, each name once.
  So the bindings can be listed without sorting, and two scopes that answer
  `get?` alike are equal (`Scope.ext_get?`): a scope is no more than what
  can be looked up in it.
-/
import LoxScript.Value

namespace LoxScript

/-! ## §1. Ordered bindings. -/

/-- Binds a name in an ordered list, in place of any earlier binding. -/
def rebind (name : String) (value : Value) : List (String × Value) → List (String × Value)
  | [] => [(name, value)]
  | (n, v) :: bs =>
    if name = n then (name, value) :: bs
    else if name < n then (name, value) :: (n, v) :: bs
    else (n, v) :: rebind name value bs

/-- Ascending names, none twice. -/
def Ordered (bs : List (String × Value)) : Prop := bs.Pairwise fun a b => a.1 < b.1

/-- The names after binding are the new one and those before. -/
theorem fst_mem_rebind {name n : String} {value : Value} {bs : List (String × Value)} :
    n ∈ (rebind name value bs).map Prod.fst ↔ n = name ∨ n ∈ bs.map Prod.fst := by
  induction bs with
  | nil => simp [rebind]
  | cons b bs ih =>
    obtain ⟨m, v⟩ := b
    unfold rebind
    split
    · next h => subst h; simp
    · split
      · simp
      · simp only [List.map_cons, List.mem_cons, ih]
        grind

theorem ordered_rebind {name : String} {value : Value} {bs : List (String × Value)}
    (h : Ordered bs) : Ordered (rebind name value bs) := by
  induction bs with
  | nil => simp [rebind, Ordered]
  | cons b bs ih =>
    obtain ⟨m, v⟩ := b
    simp only [Ordered, List.pairwise_cons] at h
    unfold rebind
    split
    · next hn => subst hn; exact List.pairwise_cons.2 h
    · next hne =>
      split
      · next hlt =>
        refine List.pairwise_cons.2 ⟨?_, List.pairwise_cons.2 h⟩
        intro b hb
        rcases List.mem_cons.1 hb with rfl | hb
        · exact hlt
        · exact String.lt_trans hlt (h.1 b hb)
      · next hnlt =>
        have hlt : m < name := by
          rcases String.le_total name m with hle | hle
          · exact absurd (String.le_antisymm hle (String.not_lt.1 hnlt)) hne
          · exact Classical.byContradiction fun hc =>
              hne (String.le_antisymm (String.not_lt.1 hc) hle)
        refine List.pairwise_cons.2 ⟨?_, ih h.2⟩
        intro b hb
        have : b.1 ∈ (rebind name value bs).map Prod.fst := List.mem_map_of_mem hb
        rcases fst_mem_rebind.1 this with he | hm
        · simpa [he] using hlt
        · obtain ⟨b', hb', he⟩ := List.mem_map.1 hm
          exact he ▸ h.1 b' hb'

/-! ## §2. Scopes. -/

/-- A scope. -/
structure Scope where
  bindings : List (String × Value)
  ordered : Ordered bindings

namespace Scope

/-- The scope without bindings. -/
def empty : Scope := ⟨[], List.Pairwise.nil⟩

/-- The value bound to a name. -/
def get? (s : Scope) (name : String) : Option Value := s.bindings.lookup name

/-- Whether a name is bound. -/
def binds (s : Scope) (name : String) : Bool := (s.get? name).isSome

/-- Binds a name, in place of any earlier binding. -/
def insert (s : Scope) (name : String) (value : Value) : Scope :=
  ⟨rebind name value s.bindings, ordered_rebind s.ordered⟩

/-- The bound names in ascending order. -/
def names (s : Scope) : List String := s.bindings.map Prod.fst

/-- The scope that bindings make, one after another. -/
def ofList (bs : List (String × Value)) : Scope := bs.foldl (fun s b => s.insert b.1 b.2) empty

/-! ## §3. What can be looked up. -/

@[simp] theorem get?_empty (name : String) : empty.get? name = none := rfl

theorem lookup_rebind (name n : String) (value : Value) (bs : List (String × Value)) :
    (rebind name value bs).lookup n = if n = name then some value else bs.lookup n := by
  induction bs with
  | nil => simp only [rebind, List.lookup_cons, List.lookup_nil]; split <;> simp_all
  | cons b bs ih =>
    obtain ⟨m, v⟩ := b
    unfold rebind
    split
    · next h => subst h; simp only [List.lookup_cons]; split <;> simp_all
    · split
      · simp only [List.lookup_cons]; grind
      · simp only [List.lookup_cons, ih]; grind

@[simp] theorem get?_insert (s : Scope) (name n : String) (value : Value) :
    (s.insert name value).get? n = if n = name then some value else s.get? n :=
  lookup_rebind name n value s.bindings

@[simp] theorem binds_insert (s : Scope) (name n : String) (value : Value) :
    (s.insert name value).binds n = (n == name || s.binds n) := by
  simp only [binds, get?_insert]
  split <;> simp_all

theorem lookup_eq_none_of_forall_lt {m : String} {bs : List (String × Value)}
    (h : ∀ b ∈ bs, m < b.1) : bs.lookup m = none := by
  rw [List.lookup_eq_none_iff]
  intro b hb
  rw [bne_iff_ne]
  intro he
  exact String.lt_irrefl m (he ▸ h b hb)

theorem eq_of_lookup_eq {as bs : List (String × Value)} (ha : Ordered as) (hb : Ordered bs)
    (h : ∀ n, as.lookup n = bs.lookup n) : as = bs := by
  induction as generalizing bs with
  | nil =>
    cases bs with
    | nil => rfl
    | cons b bs => have := (h b.1).symm; simp at this
  | cons a as ih =>
    cases bs with
    | nil => have := h a.1; simp at this
    | cons b bs =>
      obtain ⟨m, v⟩ := a
      obtain ⟨n, w⟩ := b
      simp only [Ordered, List.pairwise_cons] at ha hb
      have hmn : m = n := by
        refine Classical.byContradiction fun hne => ?_
        rcases String.le_total m n with hle | hle
        · have hlt : m < n := Classical.byContradiction fun hc =>
            hne (String.le_antisymm hle (String.not_lt.1 hc))
          have h1 := h m
          have h2 : bs.lookup m = none := lookup_eq_none_of_forall_lt fun b hb' =>
            String.lt_trans hlt (hb.1 b hb')
          simp [List.lookup_cons, h2, beq_eq_false_iff_ne.2 hne] at h1
        · have hlt : n < m := Classical.byContradiction fun hc =>
            hne (String.le_antisymm (String.not_lt.1 hc) hle)
          have h1 := h n
          have h2 : as.lookup n = none := lookup_eq_none_of_forall_lt fun b hb' =>
            String.lt_trans hlt (ha.1 b hb')
          simp [List.lookup_cons, h2, beq_eq_false_iff_ne.2 (Ne.symm hne)] at h1
      subst hmn
      have hv : v = w := by simpa [List.lookup_cons] using h m
      subst hv
      congr 1
      refine ih ha.2 hb.2 fun n => ?_
      by_cases hn : n = m
      · subst hn
        rw [lookup_eq_none_of_forall_lt ha.1, lookup_eq_none_of_forall_lt hb.1]
      · simpa [List.lookup_cons, beq_eq_false_iff_ne.2 hn] using h n

/-- A scope is no more than what can be looked up in it. -/
theorem ext_get? {s t : Scope} (h : ∀ n, s.get? n = t.get? n) : s = t := by
  obtain ⟨as, ha⟩ := s
  obtain ⟨bs, hb⟩ := t
  have := eq_of_lookup_eq ha hb h
  subst this
  rfl

end Scope
end LoxScript
