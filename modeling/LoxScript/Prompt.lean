/-
  LoxScript.Prompt
  ────────────────────────────────
  The interactive prompt.

  Every line of the input, its line break included, is a source text of its
  own; all are run in the same scopes.  Before each line, and before the end
  of the input, the prompt is written.  A line that does not end well is
  noticed, and the prompt goes on.
-/
import LoxScript.Run

namespace LoxScript.Prompt

/-- What stands before a line. -/
def mark : String := "> "

/-- The prompt before a line. -/
def ask : Event := .signal .program (.write mark)

/-- The answer to the end of the input. -/
def goodbye : Event := .signal .program (.write "\n")

/-- What can be observed of a line after its prompt, and the scopes after
it.  A value that no script makes never gets into the scopes of a prompt,
so every line has an outcome. -/
def answer (line : String) (c : Chain) : List Event × Chain :=
  let r := run line c
  let notes := match r.outcome with
    | .ok o => if o.status = .finished then [] else [.notice (.lineFinished o.status)]
    | .error _ => []
  (r.events ++ notes, r.chain)

/-- What can be observed of a prompt that gets these lines. -/
def transcript : List String → Chain → List Event
  | [], _ => [ask, goodbye]
  | line :: lines, c =>
    let (events, c) := answer line c
    ask :: events ++ transcript lines c

/-- The lines of an input text, cut behind each LF. -/
def linesOf (input : String) : List String := (Text.splitLines input.toList).map String.ofList

end LoxScript.Prompt
