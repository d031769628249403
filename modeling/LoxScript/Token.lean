/-
  LoxScript.Token
  ────────────────────────────────
  The vocabulary: kinds of token, their spellings, and tokens.

  The spelling of a token is laid down by four tables.  A character of
  `singles` is a token by itself; a character of `pairs` has one kind when
  `=` follows and another when it does not; a word of `keywords` is not a
  name; and three keywords stand for the values of `constants`.

  A token made by hand may combine any kind, lexeme, literal and line.  Its
  kind alone says what it does, its lexeme is what is printed and looked up.
-/
import LoxScript.Value

namespace LoxScript

/-! ## §1. Kinds. -/

/-- What a token is. -/
inductive Kind where
  | leftParen | rightParen | leftBrace | rightBrace
  | comma | dot | minus | plus | semicolon | slash | star
  | bang | bangEqual | equal | equalEqual
  | greater | greaterEqual | less | lessEqual
  | identifier | string | number
  | wordAnd | wordClass | wordElse | wordFalse | wordFun | wordFor | wordIf | wordNil
  | wordOr | wordPrint | wordReturn | wordSuper | wordThis | wordTrue | wordVar | wordWhile
  | endOfText
deriving DecidableEq, Repr

namespace Kind

/-- All kinds in their fixed order. -/
def all : List Kind :=
  [leftParen, rightParen, leftBrace, rightBrace, comma, dot, minus, plus, semicolon, slash,
   star, bang, bangEqual, equal, equalEqual, greater, greaterEqual, less, lessEqual,
   identifier, string, number, wordAnd, wordClass, wordElse, wordFalse, wordFun, wordFor,
   wordIf, wordNil, wordOr, wordPrint, wordReturn, wordSuper, wordThis, wordTrue, wordVar,
   wordWhile, endOfText]

/-- The name of a kind in dumps and diagnostics. -/
def name : Kind → String
  | leftParen => "LEFT_PAREN" | rightParen => "RIGHT_PAREN"
  | leftBrace => "LEFT_BRACE" | rightBrace => "RIGHT_BRACE"
  | comma => "COMMA" | dot => "DOT" | minus => "MINUS" | plus => "PLUS"
  | semicolon => "SEMICOLON" | slash => "SLASH" | star => "STAR"
  | bang => "BANG" | bangEqual => "BANG_EQUAL"
  | equal => "EQUAL" | equalEqual => "EQUAL_EQUAL"
  | greater => "GREATER" | greaterEqual => "GREATER_EQUAL"
  | less => "LESS" | lessEqual => "LESS_EQUAL"
  | identifier => "IDENTIFIER" | string => "STRING" | number => "NUMBER"
  | wordAnd => "AND" | wordClass => "CLASS" | wordElse => "ELSE" | wordFalse => "FALSE"
  | wordFun => "FUN" | wordFor => "FOR" | wordIf => "IF" | wordNil => "NIL"
  | wordOr => "OR" | wordPrint => "PRINT" | wordReturn => "RETURN" | wordSuper => "SUPER"
  | wordThis => "THIS" | wordTrue => "TRUE" | wordVar => "VAR" | wordWhile => "WHILE"
  | endOfText => "EOF"

/-- The number of a kind, counted from one in the fixed order. -/
def ordinal (k : Kind) : Nat := all.idxOf k + 1

/-- The kind with a given name. -/
def ofName? (s : String) : Option Kind := all.find? (·.name == s)

/-! ## §2. Spellings. -/

/-- Characters that are a token by themselves. -/
def singles : List (Char × Kind) :=
  [('(', leftParen), (')', rightParen), ('*', star), ('+', plus), (',', comma), ('-', minus),
   ('.', dot), (';', semicolon), ('\x7b', leftBrace), ('\x7d', rightBrace)]

/-- Characters that are one kind of token before `=`, together with it, and
another by themselves. -/
def pairs : List (Char × Kind × Kind) :=
  [('!', bangEqual, bang), ('<', lessEqual, less), ('=', equalEqual, equal),
   ('>', greaterEqual, greater)]

/-- Words that are no names. -/
def keywords : List (String × Kind) :=
  [("and", wordAnd), ("class", wordClass), ("else", wordElse), ("false", wordFalse),
   ("for", wordFor), ("fun", wordFun), ("if", wordIf), ("nil", wordNil), ("or", wordOr),
   ("print", wordPrint), ("return", wordReturn), ("super", wordSuper), ("this", wordThis),
   ("true", wordTrue), ("var", wordVar), ("while", wordWhile)]

/-- Keywords that stand for a value. -/
def constants : List (Kind × Value) :=
  [(wordFalse, .truth false), (wordNil, .nil), (wordTrue, .truth true)]

/-- The kind of a word. -/
def ofWord (word : String) : Kind := (keywords.lookup word).getD identifier

/-! ## §3. Classes of kinds that steer the reading of statements. -/

/-- Tokens that are an expression by themselves, the value being their
literal. -/
def isLiteral : Kind → Bool
  | number | string | wordTrue | wordFalse | wordNil => true
  | _ => false

/-- Keywords that can only stand at the start of a statement. -/
def startsStatement : Kind → Bool
  | wordClass | wordFun | wordVar | wordFor | wordIf | wordWhile | wordPrint | wordReturn => true
  | _ => false

end Kind

/-! ## §4. Tokens. -/

/-- A token with the line on which it was completed. -/
structure Token where
  kind : Kind
  lexeme : String
  literal : Value
  line : Int

namespace Token

/-- Whether the lexeme is a keyword and the kind is that keyword's. -/
def spellsKeyword (t : Token) : Bool := Kind.keywords.lookup t.lexeme == some t.kind

/-- One-line form of dumps: the literal is left out when it is nil. -/
def summary (t : Token) : String :=
  match t.literal with
  | .nil => t.kind.name ++ " " ++ t.lexeme
  | v => t.kind.name ++ " " ++ t.lexeme ++ " " ++ v.debug

/-- Full form of diagnostics. -/
def debug (t : Token) : String :=
  "Token(" ++ t.kind.name ++ ", " ++ Text.debugForm t.lexeme ++ ", " ++ t.literal.debug
    ++ ", line=" ++ toString t.line ++ ")"

end Token
end LoxScript
