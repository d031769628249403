/-
  LoxScript.Event
  ────────────────────────────────
  What can be observed of a run, in the order in which it happens.

  A run writes to two sinks: `program` takes what the script prints, and
  `reports` takes what is wrong with it.  Whether they are one stream or two
  is not the run's affair.  Between the writes it notes what it is doing; a
  notice has a level and the name of a logger, and is one line of a log:

      LEVEL logger: message
-/
import LoxScript.Problem

namespace LoxScript

/-! ## §1. How a run ends. -/

/-- How a run ends. -/
inductive Status where
  | finished
  /-- The text is no program; nothing was run. -/
  | rejected
  /-- A statement failed; those before it were run. -/
  | failed
deriving DecidableEq, Repr

namespace Status

def all : List Status := [finished, rejected, failed]

def name : Status → String
  | finished => "OK"
  | rejected => "STATIC_ERROR"
  | failed => "RUNTIME_ERROR"

/-- The exit code of a process that ends so. -/
def exitCode : Status → Nat
  | finished => 0
  | rejected => 65
  | failed => 70

end Status

/-! ## §2. Notices. -/

/-- How much a notice matters. -/
inductive Level where
  | debug
  | info
deriving DecidableEq, Repr

def Level.name : Level → String
  | .debug => "DEBUG"
  | .info => "INFO"

/-- What a run is doing. -/
inductive Notice where
  /-- A text was cut into so many tokens, the end token included. -/
  | scanned (count : Nat) (source : String)
  /-- Reading goes on after an error. -/
  | recovering (e : SyntaxError)
  /-- The tokens are a program of so many statements. -/
  | parsed (count : Nat)
  | interpreting (count : Nat)
  | defined (name : String) (value : Value)
  | reporting (p : Problem)
  /-- A script file was read. -/
  | running (path : String)
  /-- A line of the prompt did not end well. -/
  | lineFinished (status : Status)

namespace Notice

def level : Notice → Level
  | running _ | lineFinished _ => .info
  | _ => .debug

/-- The logger that a notice goes to. -/
def logger : Notice → String
  | scanned _ _ => "relox.lexer.lexer"
  | recovering _ | parsed _ => "relox.parser.parser"
  | interpreting _ => "relox.interpreter.interpreter"
  | defined _ _ => "relox.interpreter.environment"
  | reporting _ | running _ => "relox.runner"
  | lineFinished _ => "relox.cli"

def message : Notice → String
  | scanned count source => "scanned " ++ toString count ++ " tokens from " ++ source
  | recovering e => "recovering from parse error: " ++ (Problem.parse e).report
  | parsed count => "parsed " ++ toString count ++ " statements"
  | interpreting count => "interpreting " ++ toString count ++ " statements"
  | defined name value => "define " ++ name ++ " = " ++ value.debug
  | reporting p => "reporting " ++ p.className
  | running path => "running " ++ path
  | lineFinished status => "line finished with " ++ status.name

/-- The line of a log, without its break. -/
def record (n : Notice) : String := n.level.name ++ " " ++ n.logger ++ ": " ++ n.message

end Notice

/-! ## §3. Events. -/

/-- Where a run writes. -/
inductive Sink where
  | program
  | reports
deriving DecidableEq, Repr

/-- What a stream is told. -/
inductive Signal where
  | write (text : String)
  | flush
deriving DecidableEq, Repr

/-- Something observable. -/
inductive Event where
  | signal (sink : Sink) (s : Signal)
  | notice (n : Notice)

/-- What a stream sees that serves the sinks for which `serves` holds. -/
def signals (serves : Sink → Bool) (es : List Event) : List Signal :=
  es.filterMap fun e => match e with
    | .signal sink s => if serves sink then some s else none
    | .notice _ => none

/-- What one stream for both sinks sees. -/
def allSignals (es : List Event) : List Signal := signals (fun _ => true) es

/-- What the stream of one sink sees. -/
def signalsOf (sink : Sink) (es : List Event) : List Signal := signals (· = sink) es

/-- The notices among the events. -/
def notices (es : List Event) : List Notice :=
  es.filterMap fun e => match e with
    | .signal _ _ => none
    | .notice n => some n

/-- The text that signals leave on a stream. -/
def written (ss : List Signal) : String :=
  String.join (ss.map fun s => match s with
    | .write text => text
    | .flush => "")

@[simp] theorem signals_append (serves : Sink → Bool) (a b : List Event) :
    signals serves (a ++ b) = signals serves a ++ signals serves b :=
  List.filterMap_append

end LoxScript
