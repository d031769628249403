/-
  LoxScript.Tree
  ────────────────────────────────
  Programs as trees.

  A tree keeps the tokens that mean something later: operators and names,
  with their lines.  Parentheses stay visible as `paren`; keywords,
  `=` and `;` are gone.

  The printed form is fully parenthesized, operator first:

      print -1 + a * 2;     ⟶     (print (+ (- 1) (* (var a) 2)))

  Printing fails only on a literal that has no display form, and then on the
  leftmost one.
-/
import LoxScript.Token

namespace LoxScript

/-! ## §1. Trees. -/

/-- An expression. -/
inductive Expr where
  | literal (value : Value)
  | paren (inner : Expr)
  | unary (op : Token) (operand : Expr)
  | binary (left : Expr) (op : Token) (right : Expr)
  | name (token : Token)
  | assign (name : Token) (value : Expr)

/-- A statement. -/
inductive Stmt where
  | expression (e : Expr)
  | print (e : Expr)
  | declare (name : Token) (initializer : Option Expr)

/-! ## §2. The printed form. -/

/-- The printed form of an expression. -/
def Expr.display : Expr → Except Misuse String
  | .literal v => v.display
  | .paren e => do return "(group " ++ (← e.display) ++ ")"
  | .unary op e => do return "(" ++ op.lexeme ++ " " ++ (← e.display) ++ ")"
  | .binary l op r => do
    let left ← l.display
    let right ← r.display
    return "(" ++ op.lexeme ++ " " ++ left ++ " " ++ right ++ ")"
  | .name t => .ok ("(var " ++ t.lexeme ++ ")")
  | .assign t e => do return "(assign " ++ t.lexeme ++ " = " ++ (← e.display) ++ ")"

/-- The printed form of a statement. -/
def Stmt.display : Stmt → Except Misuse String
  | .expression e => do return "(expr " ++ (← e.display) ++ ")"
  | .print e => do return "(print " ++ (← e.display) ++ ")"
  | .declare t none => .ok ("(var " ++ t.lexeme ++ ")")
  | .declare t (some e) => do return "(var " ++ t.lexeme ++ " = " ++ (← e.display) ++ ")"

end LoxScript
