/-
  LoxScript.Scope.Chain
  ────────────────────────────────
  Scopes one inside another, as a running program sees them.

  A name means its binding in the nearest scope that has one.  Definitions
  go to the innermost scope; an assignment goes to the nearest scope that
  binds the name, and fails if none does.
-/
import LoxScript.Scope

namespace LoxScript

/-- The innermost scope and the ones around it, nearest first. -/
structure Chain where
  inner : Scope
  outer : List Scope

/-- The meaning of a name in the first scope that binds it. -/
def lookIn (name : String) : List Scope → Option Value
  | [] => none
  | s :: ss => (s.get? name).or (lookIn name ss)

/-- Assigns in the first scope that binds the name. -/
def assignIn (name : String) (value : Value) : List Scope → Option (List Scope)
  | [] => none
  | s :: ss =>
    if s.binds name then some (s.insert name value :: ss)
    else (assignIn name value ss).map (s :: ·)

namespace Chain

/-- One scope without bindings. -/
def empty : Chain := ⟨Scope.empty, []⟩

/-- All scopes, the innermost first. -/
def scopes (c : Chain) : List Scope := c.inner :: c.outer

/-- What a name means. -/
def get? (c : Chain) (name : String) : Option Value := lookIn name c.scopes

/-- Binds a name in the innermost scope. -/
def define (c : Chain) (name : String) (value : Value) : Chain :=
  { c with inner := c.inner.insert name value }

/-- Gives a bound name a new value where it is bound. -/
def assign? (c : Chain) (name : String) (value : Value) : Option Chain :=
  if c.inner.binds name then some (c.define name value)
  else (assignIn name value c.outer).map ({ c with outer := · })

/-- A scope without bindings inside the others. -/
def nest (c : Chain) : Chain := ⟨Scope.empty, c.scopes⟩

@[simp] theorem get?_define (c : Chain) (name n : String) (value : Value) :
    (c.define name value).get? n = if n = name then some value else c.get? n := by
  simp only [get?, scopes, define, lookIn, Scope.get?_insert]
  split <;> simp

/-- A new innermost scope hides nothing. -/
@[simp] theorem get?_nest (c : Chain) (n : String) : c.nest.get? n = c.get? n := by
  simp [get?, nest, scopes, lookIn]

end Chain

/-- Assigning succeeds exactly where looking up does. -/
theorem isSome_assignIn (name : String) (value : Value) (ss : List Scope) :
    (assignIn name value ss).isSome = (lookIn name ss).isSome := by
  induction ss with
  | nil => rfl
  | cons s ss ih =>
    simp only [assignIn, lookIn, Option.isSome_or]
    split
    · next h => simp_all [Scope.binds]
    · next h => simp_all [Scope.binds]

theorem Chain.isSome_assign? (c : Chain) (name : String) (value : Value) :
    (c.assign? name value).isSome = (c.get? name).isSome := by
  simp only [Chain.assign?, Chain.get?, Chain.scopes, lookIn, Option.isSome_or]
  split
  · next h => simp_all [Scope.binds]
  · next h => simp_all [Scope.binds, isSome_assignIn]

end LoxScript
