/-
  LoxScript.Proofs.Command.Arguments
  ────────────────────────────────
  Command lines that ask for an invocation.

      ast ‹path›                 the statements of a script
      run ‹path›                 a script
      -v … -v run                a prompt that shows so much of the log

  What the program does with such a line is what the invocation does with the
  text that standard input delivers (`AskFor`), so all that is said of an
  invocation holds of its command line.
-/
import LoxScript.Command

namespace LoxScript.Command

/-- The arguments ask for an invocation, whatever there is to read. -/
def AskFor (args : List String) (i : Invocation) : Prop :=
  ∀ entryOf input,
    perform args entryOf input = i.perform ((i.script?.map entryOf).getD .missing) (delivered input)

theorem askFor_of_ofArguments? {args : List String} {i : Invocation}
    (h : CommandLine.ofArguments? args = some (.invocation i)) : AskFor args i := by
  intro entryOf input
  unfold perform
  rw [h]

/-! ## §1. Commands with a script. -/

section Script

variable {path : String} (hpath : isOption path = false)
include hpath

theorem readArguments_singleton : readArguments false [] [path] = some (false, [path]) := by
  have hne : path ≠ "--" := by
    rintro rfl
    cases hpath
  unfold readArguments
  rw [if_neg hne, hpath]
  rfl

theorem askFor_ast : AskFor ["ast", path] ⟨0, .ast path⟩ := by
  apply askFor_of_ofArguments?
  show readCommand 0 "ast" [path] = _
  unfold readCommand
  rw [readArguments_singleton hpath]
  rfl

theorem askFor_run : AskFor ["run", path] ⟨0, .run (some path)⟩ := by
  apply askFor_of_ofArguments?
  show readCommand 0 "run" [path] = _
  unfold readCommand
  rw [readArguments_singleton hpath]
  rfl

end Script

/-! ## §2. A prompt. -/

/-- The arguments of a prompt that shows so much of the log. -/
def promptArguments (verbosity : Nat) : List String := List.replicate verbosity "-v" ++ ["run"]

theorem readOptions_promptArguments (v verbosity : Nat) :
    readOptions v none (promptArguments verbosity) = some ⟨v + verbosity, none, ["run"]⟩ := by
  induction verbosity generalizing v with
  | zero => rfl
  | succ n ih =>
    have hshort : readOptions v none ("-v" :: promptArguments n)
        = readOptions (v + 1) none (promptArguments n) := by
      rw [readOptions, if_neg (by decide), if_neg (by decide), if_neg (by decide),
        if_neg (by decide), if_neg (by decide)]
      rfl
    rw [promptArguments, List.replicate_succ, List.cons_append]
    show readOptions v none ("-v" :: promptArguments n) = _
    rw [hshort, ih, Nat.add_right_comm, Nat.add_assoc]

theorem askFor_prompt (verbosity : Nat) :
    AskFor (promptArguments verbosity) ⟨verbosity, .run none⟩ := by
  apply askFor_of_ofArguments?
  rw [CommandLine.ofArguments?, readOptions_promptArguments, Nat.zero_add]
  rfl

end LoxScript.Command
