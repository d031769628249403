/-
  LoxScript.Evaluation
  ────────────────────────────────
  What expressions and statements do.

  Evaluation is strict and goes from left to right; the first failure ends
  it.  What was assigned before a failure stays assigned, so a result always
  comes with the scopes it leaves behind.  An expression writes nothing and
  makes no name; a statement does its own deed last, after its expression
  has a value:

      print e     writes one line and flushes
      var x = e   binds the name in the innermost scope
-/
import LoxScript.Event
import LoxScript.Scope.Chain
import LoxScript.Tree.Reader

namespace LoxScript

/-! ## §1. Failures. -/

/-- Why there is no value. -/
inductive Failure where
  /-- The script is wrong. -/
  | error (e : EvalError)
  /-- The tree is not one that a script has. -/
  | misuse (m : Misuse)

/-- A failure that blames a token. -/
def fail {α : Type} (cause : EvalCause) (token : Token) : Except Failure α :=
  .error (.error ⟨cause, token⟩)

/-! ## §2. Operators. -/

/-- The value of a unary operator at an operand. -/
def applyUnary (op : Token) (v : Value) : Except Failure Value :=
  match op.kind with
  | .minus =>
    match v with
    | .number x => .ok (.number (-x))
    | _ => fail .operandNotNumber op
  | .bang => .ok (.truth !v.holds)
  | _ => .error (.misuse (.unknownUnary op.lexeme))

/-- The operators that take two numbers and nothing else. -/
def numeric? : Kind → Option (Float → Float → Value)
  | .minus => some fun x y => .number (x - y)
  | .star => some fun x y => .number (x * y)
  | .slash => some fun x y => .number (x / y)
  | .greater => some fun x y => .truth (x > y)
  | .greaterEqual => some fun x y => .truth (x ≥ y)
  | .less => some fun x y => .truth (x < y)
  | .lessEqual => some fun x y => .truth (x ≤ y)
  | _ => none

/-- The sum of two numbers, or two texts one after the other. -/
def add (op : Token) : Value → Value → Except Failure Value
  | .number x, .number y => .ok (.number (x + y))
  | .text s, .text t => .ok (.text (s ++ t))
  | _, _ => fail .operandsNotAddable op

/-- The value of a binary operator at two operands. -/
def applyBinary (op : Token) (v w : Value) : Except Failure Value :=
  match op.kind with
  | .plus => add op v w
  | .equalEqual => .ok (.truth (v.equals w))
  | .bangEqual => .ok (.truth !v.equals w)
  | k =>
    match numeric? k with
    | none => .error (.misuse (.unknownBinary op.lexeme))
    | some f =>
      match v, w with
      | .number x, .number y => .ok (f x y)
      | _, _ => fail .operandsNotNumbers op

/-! ## §3. Expressions. -/

/-- The value of a literal: what it holds, unless that is a name. -/
def literalValue : Value → Except Failure Value
  | .name id => .error (.misuse (.nameEvaluated id))
  | v => .ok v

/-- What a name means. -/
def readName (c : Chain) (t : Token) : Except Failure Value :=
  match c.get? t.lexeme with
  | some v => .ok v
  | none => fail .unboundName t

/-- The value of an assignment, and the scopes after it. -/
def writeName (c : Chain) (t : Token) (v : Value) : Except Failure Value × Chain :=
  match c.assign? t.lexeme v with
  | some c => (.ok v, c)
  | none => (fail .unboundName t, c)

/-- The value of an expression, and the scopes after it. -/
def Expr.evaluate : Expr → Chain → Except Failure Value × Chain
  | .literal v, c => (literalValue v, c)
  | .paren e, c => e.evaluate c
  | .unary op e, c =>
    match e.evaluate c with
    | (.ok v, c) => (applyUnary op v, c)
    | (.error f, c) => (.error f, c)
  | .binary l op r, c =>
    match l.evaluate c with
    | (.ok v, c) =>
      match r.evaluate c with
      | (.ok w, c) => (applyBinary op v w, c)
      | (.error f, c) => (.error f, c)
    | (.error f, c) => (.error f, c)
  | .name t, c => (readName c t, c)
  | .assign t e, c =>
    match e.evaluate c with
    | (.ok v, c) => writeName c t v
    | (.error f, c) => (.error f, c)

/-! ## §4. Statements. -/

/-- What statements do: what can be observed, how they end, and the scopes
they leave behind. -/
structure Execution where
  events : List Event
  result : Except Failure Unit
  chain : Chain

/-- Writes a value on a line of its own. -/
def printValue (v : Value) : Except Misuse (List Event) := do
  let text ← v.display
  return [.signal .program (.write (text ++ "\n")), .signal .program .flush]

/-- Binds a name. -/
def defineName (c : Chain) (name : String) (v : Value) : Execution :=
  ⟨[.notice (.defined name v)], .ok (), c.define name v⟩

/-- What a statement does. -/
def Stmt.execute : Stmt → Chain → Execution
  | .expression e, c =>
    match e.evaluate c with
    | (.ok _, c) => ⟨[], .ok (), c⟩
    | (.error f, c) => ⟨[], .error f, c⟩
  | .print e, c =>
    match e.evaluate c with
    | (.ok v, c) =>
      -- a value without display form leaves nothing half written
      match printValue v with
      | .ok es => ⟨es, .ok (), c⟩
      | .error m => ⟨[], .error (.misuse m), c⟩
    | (.error f, c) => ⟨[], .error f, c⟩
  | .declare t none, c => defineName c t.lexeme .nil
  | .declare t (some e), c =>
    match e.evaluate c with
    | (.ok v, c) => defineName c t.lexeme v
    | (.error f, c) => ⟨[], .error f, c⟩

/-- What statements do one after another, up to the first that fails. -/
def execute : List Stmt → Chain → Execution
  | [], c => ⟨[], .ok (), c⟩
  | s :: ss, c =>
    let first := s.execute c
    match first.result with
    | .error _ => first
    | .ok () =>
      let rest := execute ss first.chain
      ⟨first.events ++ rest.events, rest.result, rest.chain⟩

end LoxScript
