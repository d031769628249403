import LoxScript.Main
import LoxScript.Scope.Forest
import LoxScript.Proofs.Reader.Soundness
import LoxScript.Proofs.Reader.Completeness
import LoxScript.Proofs.Reader.Recovery
import LoxScript.Proofs.Scan.Partition
import LoxScript.Proofs.Scan.Continuation
import LoxScript.Proofs.Scan.Layout
import LoxScript.Proofs.Relocation
import LoxScript.Proofs.Run.Safety
import LoxScript.Proofs.Run.Session
import LoxScript.Proofs.Run.Joined
import LoxScript.Proofs.Evaluation.Visible
import LoxScript.Proofs.Reader.Kinds
import LoxScript.Proofs.Decimal.ReadBack
import LoxScript.Proofs.Display.Literal
import LoxScript.Proofs.Display.Program
import LoxScript.Proofs.Reader.Blame
import LoxScript.Proofs.Run.Relaid
import LoxScript.Proofs.Display.Output
import LoxScript.Proofs.Evaluation.Errors
import LoxScript.Proofs.Reader.Errors
import LoxScript.Proofs.Scan.TokenLines
import LoxScript.Proofs.Run.Signals
import LoxScript.Proofs.Run.Streams
import LoxScript.Proofs.Run.Reports
import LoxScript.Proofs.Command.Scripts
import LoxScript.Proofs.Scope.Views
import LoxScript.Proofs.Command.Prompt
import LoxScript.Proofs.Reader.Segments
import LoxScript.Proofs.Scan.Lexers
import LoxScript.Proofs.Reader.Parsing
import LoxScript.Proofs.Evaluation.Frame
import LoxScript.Proofs.Evaluation.CutOff
import LoxScript.Proofs.Evaluation.Unbound
import LoxScript.Proofs.Evaluation.Independence
import LoxScript.Proofs.Scope.Visibility
import LoxScript.Proofs.Display.Controls
import LoxScript.Proofs.Command.Located
import LoxScript.Proofs.Decimal.Expansion
