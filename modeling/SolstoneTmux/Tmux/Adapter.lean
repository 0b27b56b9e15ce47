import Mathlib.Logic.Function.Basic
import SolstoneTmux.Foundations.Rows

/-!
# Asking tmux

`TmuxAdapter` runs one tmux command for each `TmuxOperation` and reads its output as text. A missing
server is told apart from other failures by what tmux prints (`reportsNoServer`).
-/

namespace SolstoneTmux

open Foundations

/-- `TmuxOperation`, those that list and capture. -/
inductive TmuxOperation
  | listClients
  | listSessions
  | listWindows (session : Str)
  | listPanes (windowId : Str)
  | capturePane (paneId : Str)
  deriving DecidableEq

/-- `CommandOutput`. -/
structure CommandOutput where
  stdout : Bytes
  stderr : Bytes
  status : ℤ

/-- The detail of `TmuxError::Malformed`. -/
inductive MalformedDetail
  | emptyOutput
  | invalidRow (row : Str)
  | duplicate (row : Str)
  | nonpositiveSize (row : Str)
  | activeWindow
  | activePane

/-- The text of the detail; `debug` is `{:?}` of a text. -/
def MalformedDetail.text (debug : Str → Str) : MalformedDetail → Str
  | emptyOutput => "empty successful output".toList
  | invalidRow row => "invalid row ".toList ++ debug row
  | duplicate row => "duplicate ID or index in row ".toList ++ debug row
  | nonpositiveSize row => "nonpositive pane size in row ".toList ++ debug row
  | activeWindow => "expected exactly one active window".toList
  | activePane => "expected exactly one active pane".toList

/-- `TmuxError`; `ε` is `CommandError`. -/
inductive TmuxError (ε : Type)
  | command (error : ε)
  | noServer (operation : TmuxOperation)
  | nonzero (operation : TmuxOperation) (status : ℤ) (stderr : Str)
  | invalidUtf8 (operation : TmuxOperation)
  | malformed (operation : TmuxOperation) (detail : MalformedDetail)

/-- `TmuxAdapter`, with what its runner answers to each operation and with
`String::from_utf8_lossy`. -/
structure TmuxAdapter (ε : Type) where
  runner : TmuxOperation → Except ε CommandOutput
  lossy : Bytes → Str
  outputSessions : List Str

/-- `str::trim_end`. -/
def trimEnd (s : Str) : Str := (s.reverse.dropWhile isWhitespace).reverse

/-- `reports_no_server`. -/
def reportsNoServer (lossy : Bytes → Str) (output : CommandOutput) : Bool :=
  if output.status = 0 then false
  else
    let message := trimEnd (lossy output.stderr)
    "no server running on ".toList.isPrefixOf message ||
      ("error connecting to ".toList.isPrefixOf message &&
        " (No such file or directory)".toList.isSuffixOf message)

namespace TmuxAdapter

variable {ε : Type}

/-- `TmuxAdapter::run`. -/
def run (adapter : TmuxAdapter ε) (operation : TmuxOperation) :
    Except (TmuxError ε) CommandOutput :=
  match adapter.runner operation with
  | .error error => .error (.command error)
  | .ok output =>
    if reportsNoServer adapter.lossy output then .error (.noServer operation)
    else if output.status ≠ 0 then
      .error (.nonzero operation output.status (adapter.lossy output.stderr))
    else .ok output

/-- The output of an operation as text. -/
def runText (adapter : TmuxAdapter ε) (operation : TmuxOperation) : Except (TmuxError ε) Str :=
  match adapter.run operation with
  | .error error => .error error
  | .ok output =>
    match fromUtf8 output.stdout with
    | none => .error (.invalidUtf8 operation)
    | some stdout => .ok stdout

/-- The adapter, with a tmux that prints this text for the operation. -/
def printing (adapter : TmuxAdapter ε) (operation : TmuxOperation) (stdout : Str) :
    TmuxAdapter ε :=
  { adapter with
    runner := Function.update adapter.runner operation (.ok ⟨utf8 stdout, [], 0⟩) }

@[simp] theorem printing_outputSessions (adapter : TmuxAdapter ε) (operation : TmuxOperation)
    (stdout : Str) : (adapter.printing operation stdout).outputSessions = adapter.outputSessions :=
  rfl

theorem runText_printing (adapter : TmuxAdapter ε) (operation : TmuxOperation) (stdout : Str) :
    (adapter.printing operation stdout).runText operation = .ok stdout := by
  simp [runText, run, printing, reportsNoServer, fromUtf8_utf8]

end TmuxAdapter

end SolstoneTmux
