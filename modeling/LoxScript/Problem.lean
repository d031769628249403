/-
  LoxScript.Problem
  ────────────────────────────────
  Everything that can be wrong with a script.

  Each stage has its own causes: cutting the text into tokens, reading the
  tokens as statements, and evaluating the statements.  A problem is a cause
  with a place: the line for the first two stages, the token for the third.
  Wording, code and class name are functions of the cause, and every problem
  is reported in one way:

      [line 3] Error: unterminated string

  A cause `custom` carries a message of its own and has no code.
-/
import LoxScript.Token

namespace LoxScript

/-! ## §1. Causes. -/

/-- Why a text cannot be cut into tokens. -/
inductive LexicalCause where
  /-- The text ends inside a string. -/
  | openString
  /-- No token starts with this character. -/
  | strayCharacter (char : String)
  | custom (message : String)
deriving DecidableEq, Repr

/-- Why tokens are not a statement. -/
inductive SyntaxCause where
  /-- A parenthesis is not closed after its expression. -/
  | unclosedParenthesis
  /-- This token cannot stand here. -/
  | strayToken (lexeme : String)
  /-- The tokens end where an expression is due. -/
  | missingExpression
  /-- No semicolon closes a `print` statement. -/
  | unclosedPrint
  /-- No semicolon closes an expression statement. -/
  | unclosedExpression
  /-- No semicolon closes a declaration. -/
  | unclosedDeclaration
  /-- No name follows `var`. -/
  | missingName
  | custom (message : String)
deriving DecidableEq, Repr

/-- Why an expression has no value. -/
inductive EvalCause where
  /-- The operand of `-` is no number. -/
  | operandNotNumber
  /-- An operand of an arithmetic or ordering operator is no number. -/
  | operandsNotNumbers
  /-- The operands of `+` are neither two numbers nor two texts. -/
  | operandsNotAddable
  /-- No scope binds the name. -/
  | unboundName
  | custom (message : String)
deriving DecidableEq, Repr

/-! ## §2. Problems. -/

/-- A text that cannot be cut, and the line reached. -/
structure LexicalError where
  cause : LexicalCause
  line : Int
deriving DecidableEq

/-- Tokens that are not a statement, and the line blamed. -/
structure SyntaxError where
  cause : SyntaxCause
  line : Int
deriving DecidableEq

/-- An expression without a value, and the token blamed. -/
structure EvalError where
  cause : EvalCause
  token : Token

/-- A problem of any stage, or of none. -/
inductive Problem where
  | scan (e : LexicalError)
  | parse (e : SyntaxError)
  | evaluate (e : EvalError)
  | unstaged (message : String) (line : Int)

/-! ## §3. Wording. -/

/-- What is said about a cause. -/
def LexicalCause.message : LexicalCause → String
  | .openString => "unterminated string"
  | .strayCharacter char => "unexpected character " ++ Text.debugForm char
  | .custom message => message

/-- What is said about a cause. -/
def SyntaxCause.message : SyntaxCause → String
  | .unclosedParenthesis => "expect ')' after expression"
  | .strayToken lexeme => "unexpected token: \"" ++ lexeme ++ "\""
  | .missingExpression => "expression expected"
  | .unclosedPrint => "expect ';' after value"
  | .unclosedExpression => "expect ';' after expression"
  | .unclosedDeclaration => "expect ';' after variable declaration"
  | .missingName => "expect variable name"
  | .custom message => message

/-- What is said about a cause at a token. -/
def EvalError.message (e : EvalError) : String :=
  match e.cause with
  | .operandNotNumber => "operand must be a number"
  | .operandsNotNumbers => "operands must be numbers"
  | .operandsNotAddable => "operands must be two numbers or two strings"
  | .unboundName => "undefined variable '" ++ e.token.lexeme ++ "'"
  | .custom message => message

/-- The class of a cause, as logs and diagnostics name it. -/
def LexicalCause.className : LexicalCause → String
  | .openString => "UnterminatedString"
  | .strayCharacter _ => "UnexpectedCharacter"
  | .custom _ => "ScanError"

/-- The class of a cause, as logs and diagnostics name it. -/
def SyntaxCause.className : SyntaxCause → String
  | .unclosedParenthesis => "RightParenExpected"
  | .strayToken _ => "UnexpectedToken"
  | .missingExpression => "ExpressionExpected"
  | .unclosedPrint => "ExpectSemicolonAfterValue"
  | .unclosedExpression => "ExpectSemicolonAfterExpression"
  | .unclosedDeclaration => "ExpectSemicolonAfterVariableDeclaration"
  | .missingName => "ExpectVariableName"
  | .custom _ => "ParseError"

/-- The class of a cause, as logs and diagnostics name it. -/
def EvalCause.className : EvalCause → String
  | .operandNotNumber => "OperandMustBeANumber"
  | .operandsNotNumbers => "OperandsMustBeNumbers"
  | .operandsNotAddable => "OperandsMustBeTwoNumbersOrTwoStrings"
  | .unboundName => "UndefinedVariable"
  | .custom _ => "LoxRuntimeError"

/-- The code of a cause. -/
def LexicalCause.code? : LexicalCause → Option String
  | .openString => some "L001"
  | .strayCharacter _ => some "L002"
  | .custom _ => none

/-- The code of a cause. -/
def SyntaxCause.code? : SyntaxCause → Option String
  | .unclosedParenthesis => some "P001"
  | .strayToken _ => some "P002"
  | .missingExpression => some "P003"
  | .unclosedPrint => some "P004"
  | .unclosedExpression => some "P005"
  | .unclosedDeclaration => some "P006"
  | .missingName => some "P007"
  | .custom _ => none

/-- The code of a cause. -/
def EvalCause.code? : EvalCause → Option String
  | .operandNotNumber => some "R001"
  | .operandsNotNumbers => some "R002"
  | .operandsNotAddable => some "R003"
  | .unboundName => some "R004"
  | .custom _ => none

namespace Problem

def message : Problem → String
  | .scan e => e.cause.message
  | .parse e => e.cause.message
  | .evaluate e => e.message
  | .unstaged message _ => message

def line : Problem → Int
  | .scan e => e.line
  | .parse e => e.line
  | .evaluate e => e.token.line
  | .unstaged _ line => line

def className : Problem → String
  | .scan e => e.cause.className
  | .parse e => e.cause.className
  | .evaluate e => e.cause.className
  | .unstaged _ _ => "LoxError"

/-- The stage of a problem, named by the class of its causes without code. -/
def family : Problem → String
  | .scan _ => "ScanError"
  | .parse _ => "ParseError"
  | .evaluate _ => "LoxRuntimeError"
  | .unstaged _ _ => "LoxError"

def code? : Problem → Option String
  | .scan e => e.cause.code?
  | .parse e => e.cause.code?
  | .evaluate e => e.cause.code?
  | .unstaged _ _ => none

/-- The one way to report a problem. -/
def report (p : Problem) : String := "[line " ++ toString p.line ++ "] Error: " ++ p.message

/-- The form of diagnostics. -/
def debug (p : Problem) : String :=
  p.className ++ "(line=" ++ toString p.line ++ ", message=" ++ Text.debugForm p.message ++ ")"

/-! ## §4. The table of codes. -/

/-- What each code stands for. -/
def codes : List (String × String) :=
  [("L001", "Unterminated string literal"), ("L002", "Unexpected character"),
   ("P001", "Missing closing parenthesis"), ("P002", "Unexpected token"),
   ("P003", "Missing expression"), ("P004", "Missing semicolon after print value"),
   ("P005", "Missing semicolon after expression statement"),
   ("P006", "Missing semicolon after variable declaration"), ("P007", "Missing variable name"),
   ("R001", "Unary operand is not a number"), ("R002", "Binary operands are not numbers"),
   ("R003", "Addition of mismatched operand types"), ("R004", "Undefined variable")]

end Problem
end LoxScript
