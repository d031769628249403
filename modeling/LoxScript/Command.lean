/-
  LoxScript.Command
  ────────────────────────────────
  The command line, without the process around it.

      [-v | --verbose]... run [SCRIPT]
      [-v | --verbose]... ast SCRIPT
      --version | --help

  Options of the program stand before the command, options of a command
  anywhere after it, and `--` ends both.  Everything else is misuse of the
  command line.

  This is all that lies between a process and `Invocation.perform`: what the
  arguments ask for is read here, the line breaks of standard input are
  translated here, and the texts about the program itself are kept here.
-/
import LoxScript.Command.Invocation

namespace LoxScript.Command

/-! ## §1. Options. -/

/-- What a command line asks for. -/
inductive CommandLine where
  | invocation (i : Invocation)
  | version
  | help
deriving DecidableEq, Repr

/-- What the options before the command come to. -/
structure Options where
  verbosity : Nat
  /-- The first option that makes a command unnecessary. -/
  instead? : Option CommandLine
  /-- The command and its arguments. -/
  rest : List String

/-- An argument that is an option, if options are still looked for. -/
def isOption (arg : String) : Bool :=
  match arg.toList with
  | '-' :: _ :: _ => true
  | _ => false

/-- How often an argument made of short options says `-v`; none if it says
anything else. -/
def shortVerbosity? (arg : String) : Option Nat :=
  match arg.toList with
  | '-' :: vs => if vs.all (· = 'v') then some vs.length else none
  | _ => none

/-- Reads the options before the command. -/
def readOptions (verbosity : Nat) (instead? : Option CommandLine) :
    List String → Option Options
  | [] => some ⟨verbosity, instead?, []⟩
  | arg :: args =>
    if arg = "--" then some ⟨verbosity, instead?, args⟩
    else if !isOption arg then some ⟨verbosity, instead?, arg :: args⟩
    else if arg = "--verbose" then readOptions (verbosity + 1) instead? args
    else if arg = "--version" then readOptions verbosity (instead?.or (some .version)) args
    else if arg = "--help" then readOptions verbosity (instead?.or (some .help)) args
    else
      match shortVerbosity? arg with
      | some n => readOptions (verbosity + n) instead? args
      | none => none

/-! ## §2. Commands. -/

/-- Reads the arguments of a command: whether it is asked for help, and what
is no option. -/
def readArguments (help : Bool) (positional : List String) :
    List String → Option (Bool × List String)
  | [] => some (help, positional)
  | arg :: args =>
    if arg = "--" then some (help, positional ++ args)
    else if !isOption arg then readArguments help (positional ++ [arg]) args
    else if arg = "--help" then readArguments true positional args
    else none

/-- What a command asks for with its arguments. -/
def readCommand (verbosity : Nat) (command : String) (args : List String) :
    Option CommandLine := do
  guard (command = "run" || command = "ast")
  let (help, positional) ← readArguments false [] args
  if help then return .help
  match command, positional with
  | "run", [] => return .invocation ⟨verbosity, .run none⟩
  | "run", [script] => return .invocation ⟨verbosity, .run (some script)⟩
  | "ast", [script] => return .invocation ⟨verbosity, .ast script⟩
  | _, _ => none

/-- What the arguments ask for, unless they are misused. -/
def CommandLine.ofArguments? (args : List String) : Option CommandLine := do
  let options ← readOptions 0 none args
  -- an option that needs no command wins over any command, even a wrong one
  match options.instead?, options.rest with
  | some line, _ => return line
  | none, [] => none
  | none, command :: args => readCommand options.verbosity command args

/-! ## §3. The program. -/

def versionNumber : String := "0.1.0"

def versionText : String := "relox, version " ++ versionNumber ++ "\n"

def helpText : String :=
  "Usage: relox [OPTIONS] COMMAND [ARGS]...\n\n"
    ++ "  Scan, parse and evaluate Lox programs.\n\n"
    ++ "Options:\n"
    ++ "  -v, --verbose  Increase log verbosity (-v info, -vv debug).\n"
    ++ "  --version      Show the version and exit.\n"
    ++ "  --help         Show this message and exit.\n\n"
    ++ "Commands:\n"
    ++ "  ast  Print the syntax tree of every statement in SCRIPT.\n"
    ++ "  run  Run SCRIPT, or read statements from standard input line by line.\n"

/-- The text on standard input with its line breaks translated. -/
def delivered (input : String) : String := String.ofList (Text.normalizeBreaks input.toList)

/-- What the program does with its arguments. -/
def perform (args : List String) (entryOf : String → Entry) (input : String) : Transcript :=
  match CommandLine.ofArguments? args with
  | none => .misuse
  | some .version => ⟨0, versionText, ""⟩
  | some .help => ⟨0, helpText, ""⟩
  | some (.invocation i) => i.perform ((i.script?.map entryOf).getD .missing) (delivered input)

end LoxScript.Command
