/-
  LoxScript.Command.Invocation
  ────────────────────────────────
  The commands, without the process around them.

      run [SCRIPT]      run a script, or a prompt if there is none
      ast SCRIPT        print the statements of a script

  A command sees the file system only as what its script names: nothing, a
  folder, or a file with its bytes.  Of standard input it sees the text that
  is delivered, whatever has been made of the line breaks before.  How a
  command line asks for a command is said in `LoxScript.Command`.
-/
import LoxScript.Prompt

namespace LoxScript.Command

/-! ## §1. What is asked for. -/

/-- What is asked of the program. -/
inductive Task where
  /-- Run a script, or a prompt if there is none. -/
  | run (script : Option String)
  /-- Print the statements of a script. -/
  | ast (script : String)
deriving DecidableEq, Repr

/-- A task and how much of the log is shown with it. -/
structure Invocation where
  verbosity : Nat
  task : Task
deriving DecidableEq, Repr

/-- The script that an invocation needs. -/
def Invocation.script? (i : Invocation) : Option String :=
  match i.task with
  | .run script => script
  | .ast script => some script

/-! ## §2. What a process does. -/

/-- The exit code of a misused command line. -/
def misuseExitCode : Nat := 64

/-- What a path names. -/
inductive Entry where
  | missing
  | folder
  | file (bytes : List UInt8)

/-- What can be observed of a process. -/
structure Transcript where
  exitCode : Nat
  stdout : String
  stderr : String
deriving DecidableEq, Repr

/-- A process that does nothing but end. -/
def Transcript.misuse : Transcript := ⟨misuseExitCode, "", ""⟩

/-- Whether a notice is shown at a verbosity. -/
def shows (verbosity : Nat) (n : Notice) : Bool :=
  match n.level with
  | .info => 1 ≤ verbosity
  | .debug => 2 ≤ verbosity

/-- What an event writes to standard output. -/
def stdoutText : Event → String
  | .signal .program (.write text) => text
  | _ => ""

/-- What an event writes to standard error. -/
def stderrText (verbosity : Nat) : Event → String
  | .signal .reports (.write text) => text
  | .notice n => if shows verbosity n then n.record ++ "\n" else ""
  | _ => ""

/-- The process that these events are observed of. -/
def Transcript.ofEvents (verbosity exitCode : Nat) (es : List Event) : Transcript :=
  ⟨exitCode, String.join (es.map stdoutText),
    String.join (es.map (stderrText verbosity))⟩

/-! ## §3. The tasks. -/

/-- The complaint about a script that is no UTF-8. -/
def undecodable (path : String) (offset : Nat) : Transcript :=
  ⟨Status.rejected.exitCode, "",
    "Error: " ++ path ++ " is not valid UTF-8 (byte " ++ toString offset ++ ")\n"⟩

/-- Runs the text of a script. -/
def runScript (verbosity : Nat) (source : String) : Transcript :=
  let r := run source Chain.empty
  let exitCode := match r.outcome with
    | .ok o => o.status.exitCode
    | .error _ => 1
  .ofEvents verbosity exitCode r.events

/-- Prints the statements of a script text, or what is wrong with it. -/
def printScript (verbosity : Nat) (source : String) : Transcript :=
  let say (sink : Sink) (line : String) : Event := .signal sink (.write (line ++ "\n"))
  match compile source with
  | (events, .error ps) =>
    .ofEvents verbosity Status.rejected.exitCode
      (events ++ ps.map fun p => say .reports p.report)
  | (events, .ok program) =>
    match displayAll program with
    | .ok lines => .ofEvents verbosity 0 (events ++ lines.map (say .program))
    | .error _ => .ofEvents verbosity 1 events

/-- Hands the text of a script on, if the path names a script. -/
def withScript (path : String) (entry : Entry) (use : String → Transcript) : Transcript :=
  match entry with
  | .missing | .folder => .misuse
  | .file bytes =>
    match decodeScript bytes with
    | .ok source => use source
    | .error offset => undecodable path offset

/-- What an invocation does, given what its script names and the text that
standard input delivers. -/
def Invocation.perform (i : Invocation) (entry : Entry) (input : String) : Transcript :=
  match i.task with
  | .run (some path) => withScript path entry (runScript i.verbosity)
  | .ast path => withScript path entry (printScript i.verbosity)
  | .run none => .ofEvents i.verbosity 0 (Prompt.transcript (Prompt.linesOf input) Chain.empty)

end LoxScript.Command
