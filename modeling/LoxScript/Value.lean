/-
  LoxScript.Value
  ────────────────────────────────
  Values, and what can be done to one without a program around it.

  A script makes four kinds of value: nil, truth values, numbers (doubles)
  and texts.  Two further kinds can only be handed in from outside, as the
  literal of a token or as a predefined variable: the name that an
  identifier token carries, and a whole number.  They are neither numbers
  nor texts, they count as true, and they equal only their own kind.

  `Value.IsLanguage` singles out the four; a property of scripts is stated
  under it, a property of the operations without it.
-/
import LoxScript.Decimal.Numeral
import LoxScript.Text.Escape

namespace LoxScript

/-! ## §1. The kinds. -/

/-- A value. -/
inductive Value where
  | nil
  | truth (b : Bool)
  | number (x : Float)
  | text (s : String)
  /-- The name carried by an identifier token. -/
  | name (id : String)
  /-- A whole number from outside. -/
  | integer (n : Int)

/-- The values that a script can make. -/
def Value.IsLanguage : Value → Prop
  | .nil | .truth _ | .number _ | .text _ => True
  | .name _ | .integer _ => False

/-! ## §2. Requests that no script makes. -/

/-- A request outside the language.  Only values, tokens and trees made by
hand lead to one. -/
inductive Misuse where
  /-- An outside whole number has no display form. -/
  | integerDisplayed (n : Int)
  /-- A literal that holds a name has no value. -/
  | nameEvaluated (id : String)
  /-- A token that is no unary operator stands in a unary expression. -/
  | unknownUnary (lexeme : String)
  /-- A token that is no binary operator stands in a binary expression. -/
  | unknownBinary (lexeme : String)
deriving DecidableEq, Repr

/-- The wording of a misuse. -/
def Misuse.message : Misuse → String
  | .integerDisplayed n => "cannot format int value " ++ toString n
  | .nameEvaluated id => "identifier literal " ++ id ++ " cannot be evaluated"
  | .unknownUnary lexeme => "unknown unary operator " ++ Text.debugForm lexeme
  | .unknownBinary lexeme => "unknown binary operator " ++ Text.debugForm lexeme

namespace Value

/-! ## §3. Questions about a value. -/

/-- Whether a value counts as true: all do but nil and false. -/
def holds : Value → Bool
  | .nil => false
  | .truth b => b
  | _ => true

def isNumeric : Value → Bool
  | .number _ => true
  | _ => false

def isText : Value → Bool
  | .text _ => true
  | _ => false

/-- Equality as `==` sees it: values of different kinds are never equal, and
numbers compare as doubles do, so NaN differs from itself. -/
def equals : Value → Value → Bool
  | .nil, .nil => true
  | .truth a, .truth b => a == b
  | .number x, .number y => x == y
  | .text s, .text t => s == t
  | .name a, .name b => a == b
  | .integer m, .integer n => m == n
  | _, _ => false

/-! ## §4. Written forms. -/

/-- The form that `print` writes and that stands in printed trees. -/
def display : Value → Except Misuse String
  | .nil => .ok "nil"
  | .truth true => .ok "true"
  | .truth false => .ok "false"
  | .number x => .ok (Decimal.displayNumber x)
  | .text s => .ok (Text.displayForm s)
  | .name id => .ok ("(var " ++ id ++ ")")
  | .integer n => .error (.integerDisplayed n)

/-- The form of logs and diagnostics; every value has one. -/
def debug : Value → String
  | .nil => "None"
  | .truth true => "True"
  | .truth false => "False"
  | .number x => Decimal.debugNumber x
  | .text s => Text.debugForm s
  | .name id => "Identifier(name=" ++ Text.debugForm id ++ ")"
  | .integer n => toString n

/-- Every value of the language can be printed. -/
theorem display_isOk_of_isLanguage {v : Value} (h : v.IsLanguage) : ∃ s, v.display = .ok s := by
  cases v with
  | truth b => cases b <;> exact ⟨_, rfl⟩
  | integer n => exact h.elim
  | _ => exact ⟨_, rfl⟩

end Value
end LoxScript
