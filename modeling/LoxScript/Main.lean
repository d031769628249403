/-
  LoxScript.Main
  ────────────────────────────────
  The program.

  It decides nothing: a task with a script is performed at once, and a
  prompt is the conversation of `LoxScript.Prompt`, one line at a time.
-/
import LoxScript.Command

namespace LoxScript.Command

/-- What a path names; what cannot be read as a file is no script. -/
def entryAt (path : String) : IO Entry := do
  try
    let bytes ← IO.FS.readBinFile path
    return .file bytes.toList
  catch _ => return .missing

/-- Shows what can be observed. -/
def showEvent (verbosity : Nat) (e : Event) : IO Unit := do
  IO.print (stdoutText e)
  IO.eprint (stderrText verbosity e)

/-- A conversation at the prompt. -/
partial def converse (verbosity : Nat) (input : IO.FS.Stream) (c : Chain) : IO Unit := do
  showEvent verbosity Prompt.ask
  (← IO.getStdout).flush
  let line ← input.getLine
  if line.isEmpty then
    showEvent verbosity Prompt.goodbye
  else
    let (events, c) := Prompt.answer line c
    events.forM (showEvent verbosity)
    converse verbosity input c

/-- A task that needs no conversation. -/
def performOnce (i : Invocation) : IO UInt32 := do
  let entry ← match i.script? with
    | some path => entryAt path
    | none => pure .missing
  let t := i.perform entry ""
  IO.print t.stdout
  IO.eprint t.stderr
  return t.exitCode.toUInt32

end LoxScript.Command

open LoxScript LoxScript.Command in
/-- Performs what the arguments ask for and ends with its exit code. -/
def main (args : List String) : IO UInt32 := do
  match CommandLine.ofArguments? args with
  | none =>
    IO.eprint helpText
    return misuseExitCode.toUInt32
  | some .version =>
    IO.print versionText
    return 0
  | some .help =>
    IO.print helpText
    return 0
  | some (.invocation ⟨verbosity, .run none⟩) =>
    converse verbosity (← IO.getStdin) Chain.empty
    return 0
  | some (.invocation i) => performOnce i
