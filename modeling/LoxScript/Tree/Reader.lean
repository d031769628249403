/-
  LoxScript.Tree.Reader
  ────────────────────────────────
  Reading tokens as statements, one token at a time.

  The grammar, loosest binding first:

      statement   →  "var" NAME ( "=" expression )? ";"
                  |  "print" expression ";"
                  |  expression ";"
      expression  →  NAME "=" expression  |  equality
      equality    →  comparison ( ( "!=" | "==" ) comparison )*
      comparison  →  term ( ( ">" | ">=" | "<" | "<=" ) term )*
      term        →  factor ( ( "-" | "+" ) factor )*
      factor      →  unary ( ( "/" | "*" ) unary )*
      unary       →  ( "!" | "-" ) unary  |  primary
      primary     →  NUMBER | STRING | "true" | "false" | "nil"
                  |  NAME  |  "(" expression ")"

  The reader is a pushdown machine.  Between two tokens it knows the
  statement in progress, the operand read last, and a stack of what waits
  for an operand to end.  A token closes the waiting operators that bind at
  least as tight as it does, and then it is pushed, or it ends a
  parenthesis or the statement.  So reading is one structural recursion over
  the tokens, and what follows a statement cannot change it.

  An attempt at a statement ends in the statement or in an error.  After an
  error tokens are skipped up to and with the next `;`, or up to a keyword
  that starts a statement.  Whether the left side of `=` can be assigned to
  is asked only when its value has been read, so an error in the value comes
  first.
-/
import LoxScript.Problem
import LoxScript.Tree

namespace LoxScript

/-! ## §1. Operators. -/

/-- The level of a binary operator: the higher, the tighter it binds. -/
def Kind.level? : Kind → Option Nat
  | .bangEqual | .equalEqual => some 0
  | .greater | .greaterEqual | .less | .lessEqual => some 1
  | .minus | .plus => some 2
  | .slash | .star => some 3
  | _ => none

/-- Operators with one operand; they bind tighter than all others. -/
def Kind.isUnary : Kind → Bool
  | .bang | .minus => true
  | _ => false

namespace Reader

/-! ## §2. What waits for an operand to end. -/

/-- An unfinished expression, but for its last operand. -/
inductive Frame where
  | unary (op : Token)
  | binary (level : Nat) (left : Expr) (op : Token)
  | assign (target : Expr) (equals : Token)
  | group

/-- Ends the operators on top of the stack that bind at least as tight as a
level.  All that wait below an operator bind looser or are no operators. -/
def settle (level : Nat) (e : Expr) : List Frame → Expr × List Frame
  | .unary op :: k => settle level (.unary op e) k
  | .binary l left op :: k =>
    if level ≤ l then settle level (.binary left op e) k else (e, .binary l left op :: k)
  | k => (e, k)

/-- An expression that nothing can extend. -/
inductive Closed where
  /-- It is the whole expression of the statement. -/
  | whole (e : Expr)
  /-- It stands in a parenthesis. -/
  | inside (e : Expr) (outer : List Frame)

/-- Ends all operators and assignments down to the innermost parenthesis. -/
def close (e : Expr) : List Frame → Except SyntaxError Closed
  | [] => .ok (.whole e)
  | .group :: k => .ok (.inside e k)
  | .unary op :: k => close (.unary op e) k
  | .binary _ left op :: k => close (.binary left op e) k
  | .assign (.name t) _ :: k => close (.assign t e) k
  | .assign _ equals :: _ => .error ⟨.strayToken equals.lexeme, equals.line⟩

/-! ## §3. States. -/

/-- The kind of statement whose expression is being read. -/
inductive Opening where
  | expression
  | print
  | declare (name : Token)

/-- The statement that an expression completes. -/
def Opening.statement : Opening → Expr → Stmt
  | .expression, e => .expression e
  | .print, e => .print e
  | .declare name, e => .declare name (some e)

/-- What is wrong if no semicolon follows the expression. -/
def Opening.unclosed : Opening → SyntaxCause
  | .expression => .unclosedExpression
  | .print => .unclosedPrint
  | .declare _ => .unclosedDeclaration

/-- What is known between two tokens; `last` is the token just read. -/
inductive State where
  /-- Between two statements. -/
  | fresh
  /-- After `var`. -/
  | naming (last : Token)
  /-- After `var` and a name. -/
  | named (name : Token)
  /-- An operand is due. -/
  | operand (opening : Opening) (stack : List Frame) (last : Token)
  /-- An operand has been read. -/
  | operator (opening : Opening) (stack : List Frame) (e : Expr) (last : Token)
  /-- After an error. -/
  | skipping

/-- How an attempt at a statement ends. -/
abbrev Attempt := Except SyntaxError Stmt

/-- The attempts that a token ends, and the state after it. -/
structure Step where
  attempts : List Attempt
  state : State

/-! ## §4. One token. -/

/-- A token where an operand is due. -/
def readOperand (opening : Opening) (stack : List Frame) (t : Token) : Step :=
  if t.kind.isLiteral then ⟨[], .operator opening stack (.literal t.literal) t⟩
  else if t.kind = .identifier then ⟨[], .operator opening stack (.name t) t⟩
  else if t.kind = .leftParen then ⟨[], .operand opening (.group :: stack) t⟩
  else if t.kind.isUnary then ⟨[], .operand opening (.unary t :: stack) t⟩
  else ⟨[.error ⟨.strayToken t.lexeme, t.line⟩], .skipping⟩

/-- A token that begins a statement. -/
def readStart (t : Token) : Step :=
  if t.kind = .wordVar then ⟨[], .naming t⟩
  else if t.kind = .wordPrint then ⟨[], .operand .print [] t⟩
  else readOperand .expression [] t

/-- A token after an error. -/
def skip (t : Token) : Step :=
  if t.kind = .semicolon then ⟨[], .fresh⟩
  else if t.kind.startsStatement then readStart t
  else ⟨[], .skipping⟩

/-- An error that a token shows without belonging to the statement: the
token is looked at again. -/
def failBefore (e : SyntaxError) (t : Token) : Step :=
  ⟨.error e :: (skip t).attempts, (skip t).state⟩

/-- A token that must be the semicolon of a statement. -/
def readSemicolon (cause : SyntaxCause) (s : Stmt) (last t : Token) : Step :=
  if t.kind = .semicolon then ⟨[.ok s], .fresh⟩ else failBefore ⟨cause, last.line⟩ t

/-- A token after an operand. -/
def readOperator (opening : Opening) (stack : List Frame) (e : Expr) (last t : Token) : Step :=
  match t.kind.level? with
  | some level =>
    let (left, stack) := settle level e stack
    ⟨[], .operand opening (.binary level left t :: stack) t⟩
  | none =>
    -- the target is judged when its value is closed, not here
    if t.kind = .equal then
      let (target, stack) := settle 0 e stack
      ⟨[], .operand opening (.assign target t :: stack) t⟩
    else
      -- any other token ends the expression, whether it may follow it or not
      match close e stack with
      | .error err => failBefore err t
      | .ok (.inside e outer) =>
        if t.kind = .rightParen then ⟨[], .operator opening outer (.paren e) t⟩
        else failBefore ⟨.unclosedParenthesis, last.line⟩ t
      | .ok (.whole e) => readSemicolon opening.unclosed (opening.statement e) last t

/-- One token in any state. -/
def State.read : State → Token → Step
  | .fresh, t => readStart t
  | .naming last, t =>
    if t.kind = .identifier then ⟨[], .named t⟩ else failBefore ⟨.missingName, last.line⟩ t
  | .named name, t =>
    if t.kind = .equal then ⟨[], .operand (.declare name) [] t⟩
    else readSemicolon .unclosedDeclaration (.declare name none) name t
  | .operand opening stack _, t => readOperand opening stack t
  | .operator opening stack e last, t => readOperator opening stack e last t
  | .skipping, t => skip t

/-- The attempt that the end of the tokens cuts short. -/
def State.finish : State → List Attempt
  | .fresh | .skipping => []
  | .naming last => [.error ⟨.missingName, last.line⟩]
  | .named name => [.error ⟨.unclosedDeclaration, name.line⟩]
  | .operand _ _ last => [.error ⟨.missingExpression, last.line⟩]
  | .operator opening stack e last =>
    match close e stack with
    | .error err => [.error err]
    | .ok (.inside _ _) => [.error ⟨.unclosedParenthesis, last.line⟩]
    | .ok (.whole _) => [.error ⟨opening.unclosed, last.line⟩]

/-! ## §5. All tokens. -/

/-- The attempts that tokens make up from a state on. -/
def State.attempts : State → List Token → List Attempt
  | s, [] => s.finish
  | s, t :: ts => (s.read t).attempts ++ (s.read t).state.attempts ts

end Reader

/-! ## §6. Programs. -/

/-- The tokens that are read: nothing from the first end token on is. -/
def beforeEnd (ts : List Token) : List Token := ts.takeWhile fun t => t.kind ≠ .endOfText

/-- The attempts at statements that tokens hold, in order. -/
def attempts (ts : List Token) : List Reader.Attempt := Reader.State.fresh.attempts (beforeEnd ts)

/-- All that is wrong with tokens as a program, in order. -/
def syntaxErrors (ts : List Token) : List SyntaxError :=
  (attempts ts).filterMap fun a => match a with
    | .error e => some e
    | .ok _ => none

/-- The statements among the attempts, in order. -/
def statements (ts : List Token) : List Stmt :=
  (attempts ts).filterMap Except.toOption

/-- The program that tokens make up, or all that is wrong with them. -/
def programOf (ts : List Token) : Except (List SyntaxError) (List Stmt) :=
  match syntaxErrors ts with
  | [] => .ok (statements ts)
  | errors => .error errors

end LoxScript
