/-
  LoxScript.Scope.Forest
  ────────────────────────────────
  Many scopes at once, each inside at most one other.

  A scope is known by its number.  Beside its bindings it keeps the numbers
  of the scopes around it, nearest first, so what a scope sees is a list
  known from the day it was made.  The *owner* of a name as seen from a scope
  is the nearest scope on that way out which binds it; every operation goes
  through the owner.

  Whoever holds the scopes makes requests, one after another (`answer`).  A
  request that fails blames the token it came with and changes nothing.
-/
import LoxScript.Problem
import LoxScript.Scope

namespace LoxScript

/-! ## §1. Scopes inside one another. -/

/-- A scope and the numbers of the scopes around it, nearest first. -/
structure Place where
  scope : Scope
  outward : List Nat

/-- Numbered scopes. -/
structure Forest where
  places : List Place

namespace Forest

/-- A single scope, number 0, without bindings. -/
def root : Forest := ⟨[⟨Scope.empty, []⟩]⟩

/-- The bindings of a scope; a number not given yet has none. -/
def scope (f : Forest) (i : Nat) : Scope :=
  match f.places[i]? with
  | some p => p.scope
  | none => Scope.empty

/-- The way out from a scope, itself included. -/
def path (f : Forest) (i : Nat) : List Nat :=
  match f.places[i]? with
  | some p => i :: p.outward
  | none => []

/-- The nearest scope that binds a name. -/
def owner? (f : Forest) (i : Nat) (name : String) : Option Nat :=
  (f.path i).find? fun j => (f.scope j).binds name

/-- Whether a name means something in a scope. -/
def sees (f : Forest) (i : Nat) (name : String) : Bool := (f.owner? i name).isSome

/-- What a name means in a scope. -/
def get? (f : Forest) (i : Nat) (name : String) : Option Value :=
  (f.owner? i name).bind fun j => (f.scope j).get? name

/-- Binds a name in a scope. -/
def define (f : Forest) (i : Nat) (name : String) (value : Value) : Forest :=
  ⟨f.places.modify i fun p => { p with scope := p.scope.insert name value }⟩

/-- Gives a name a new value where it is bound. -/
def assign? (f : Forest) (i : Nat) (name : String) (value : Value) : Option Forest :=
  (f.owner? i name).map fun j => f.define j name value

/-- Adds a scope inside no other; its number is the count so far. -/
def plant (f : Forest) : Forest := ⟨f.places ++ [⟨Scope.empty, []⟩]⟩

/-- Adds a scope inside another; its number is the count so far. -/
def nest (f : Forest) (i : Nat) : Forest := ⟨f.places ++ [⟨Scope.empty, f.path i⟩]⟩

/-- The scope around a scope. -/
def parent? (f : Forest) (i : Nat) : Option Nat := (f.path i).tail.head?

/-- How many scopes are around a scope. -/
def depth (f : Forest) (i : Nat) : Nat := (f.path i).tail.length

/-- The form of diagnostics. -/
def debug (f : Forest) (i : Nat) : String :=
  "Environment(names=[" ++ ", ".intercalate ((f.scope i).names.map Text.debugForm)
    ++ "], depth=" ++ toString (f.depth i) ++ ")"

/-! ## §2. Requests. -/

/-- What can be asked of a forest, most of it through one of its scopes. -/
inductive Request where
  /-- A new scope inside no other. -/
  | outermost
  /-- A new scope inside this one. -/
  | child (i : Nat)
  | define (i : Nat) (name : String) (value : Value)
  | get (i : Nat) (t : Token)
  | assign (i : Nat) (t : Token) (value : Value)
  | isDefined (i : Nat) (name : String)

/-- What comes back if nothing is wrong. -/
inductive Reply where
  /-- The number of a new scope. -/
  | scope (i : Nat)
  | done
  | value (v : Value)
  | defined (b : Bool)

/-- Answers a request: the reply, and the forest after it. -/
def answer (f : Forest) : Request → Except EvalError Reply × Forest
  | .outermost => (.ok (.scope f.places.length), f.plant)
  | .child i => (.ok (.scope f.places.length), f.nest i)
  | .define i name value => (.ok .done, f.define i name value)
  | .get i t =>
    match f.get? i t.lexeme with
    | some v => (.ok (.value v), f)
    | none => (.error ⟨.unboundName, t⟩, f)
  | .assign i t value =>
    match f.assign? i t.lexeme value with
    | some g => (.ok .done, g)
    | none => (.error ⟨.unboundName, t⟩, f)
  | .isDefined i name => (.ok (.defined (f.sees i name)), f)

end Forest
end LoxScript
