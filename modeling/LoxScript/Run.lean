/-
  LoxScript.Run
  ────────────────────────────────
  Running a source text against scopes.

  A run scans, reads and executes.  A text that is no program is reported
  and nothing of it is executed; a statement that fails is reported after
  what the statements before it have printed.  So reports are always the
  last that is written, one line each, and one flush ends them.

  A session is runs one after another, each in the scopes that the one
  before it leaves behind.
-/
import LoxScript.Evaluation
import LoxScript.Text.Utf8
import LoxScript.Token.Scan

namespace LoxScript

/-! ## §1. One run. -/

/-- How a run ended and all that is wrong. -/
structure Outcome where
  status : Status
  problems : List Problem

/-- A run: what can be observed, how it ended, and the scopes it leaves
behind.  The outcome is missing only where the scopes held a value that no
script makes. -/
structure Run where
  events : List Event
  outcome : Except Misuse Outcome
  chain : Chain

/-- Reports problems: a line each, and a flush. -/
def reportAll (ps : List Problem) : List Event :=
  ps.flatMap (fun p => [.notice (.reporting p), .signal .reports (.write (p.report ++ "\n"))])
    ++ [.signal .reports .flush]

/-- The name of a source text that is no file. -/
def unnamedSource : String := "<string>"

/-- The program of a source text and what is noticed on the way, or all that
is wrong with it. -/
def compile (source : String) : List Event × Except (List Problem) (List Stmt) :=
  match tokensOf source with
  | .error e => ([], .error [.scan e])
  | .ok tokens =>
    let scanned := Event.notice (.scanned tokens.length unnamedSource)
    match programOf tokens with
    | .error es =>
      (scanned :: es.map (.notice ∘ .recovering), .error (es.map .parse))
    | .ok program => ([scanned, .notice (.parsed program.length)], .ok program)

/-- Executes a program and reports a failure. -/
def runProgram (program : List Stmt) (c : Chain) : Run :=
  let x := execute program c
  let events := .notice (.interpreting program.length) :: x.events
  match x.result with
  | .ok () => ⟨events, .ok ⟨.finished, []⟩, x.chain⟩
  | .error (.error e) =>
    ⟨events ++ reportAll [.evaluate e], .ok ⟨.failed, [.evaluate e]⟩, x.chain⟩
  | .error (.misuse m) => ⟨events, .error m, x.chain⟩

/-- Runs a source text. -/
def run (source : String) (c : Chain) : Run :=
  match compile source with
  | (events, .error ps) => ⟨events ++ reportAll ps, .ok ⟨.rejected, ps⟩, c⟩
  | (events, .ok program) =>
    let r := runProgram program c
    { r with events := events ++ r.events }

/-! ## §2. Script files. -/

/-- The text of a script file, or the offset of its first bad byte. -/
def decodeScript (bytes : List UInt8) : Except Nat String :=
  (Text.decodeUtf8 bytes).map fun cs => String.ofList (Text.normalizeBreaks cs)

/-- Runs the text of a script file in fresh scopes. -/
def runScriptFile (path source : String) : Run :=
  let r := run source Chain.empty
  { r with events := .notice (.running path) :: r.events }

/-! ## §3. Sessions. -/

/-- Runs of source texts, each in the scopes that the one before it leaves
behind. -/
def session : List String → Chain → List Run
  | [], _ => []
  | source :: sources, c =>
    let r := run source c
    r :: session sources r.chain

/-! ## §4. Printed programs. -/

/-- The printed forms of statements, unless one of them holds a value without
display form. -/
def displayAll (program : List Stmt) : Except Misuse (List String) := program.mapM Stmt.display

end LoxScript
