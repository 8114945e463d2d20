import PocketCalculator.CommandLine.Arguments
import PocketCalculator.Session.Basic
import PocketCalculator.Settings.Load

/-!
# Reports

A run of the program ends with a report: the lines of its output, what it has to say if it could
not be carried out, and its exit status. A run that could be carried out fails all the same if an
evaluation did.
-/

namespace PocketCalculator

/-! ## How a run ends -/

inductive Status
  | success
  /-- An evaluation failed, or the run could not be carried out. -/
  | failure
  /-- The arguments could not be read. -/
  | usage
deriving DecidableEq

def Status.code : Status → Nat
  | success => 0
  | failure => 1
  | usage => 2

/-- Why a run cannot be carried out. -/
inductive RunError
  /-- The arguments cannot be read. -/
  | usage (error : UsageError)
  /-- The settings cannot be loaded. -/
  | settings (error : SettingsError)
  /-- The session cannot be finished. -/
  | session (error : SessionError)
  /-- The clipboard does not take the result. -/
  | copy (reason : Text)
deriving DecidableEq

namespace RunError

/-- How it is reported that a run cannot be carried out. Arguments that cannot be read are not yet
the program's own business, so its name does not stand in front of that report. -/
def message : RunError → Text
  | usage error => "error: ".toList ++ error.message
  | settings error => "calcpad: Failed to load configuration: ".toList ++ error.fullMessage
  | session (.unknownKey error) => "calcpad: ".toList ++ error.message
  | session .inputNotText => "calcpad: Failed to read stdin: ".toList ++ ReadError.notText.message
  | copy reason => "calcpad: Failed to copy result: ".toList ++ reason

def status : RunError → Status
  | usage _ => .usage
  | _ => .failure

end RunError

/-! ## What a run leaves behind -/

/-- What a run leaves behind. -/
structure Report where
  /-- The lines of the output. -/
  lines : List Text := []
  /-- Why the run could not be carried out, if so. -/
  error : Option RunError := none
  /-- How the run ended. -/
  status : Status := .success
deriving DecidableEq

namespace Report

/-- The report of a run that could not be carried out, after the lines it printed before. -/
def failed (lines : List Text) (error : RunError) : Report where
  lines := lines
  error := some error
  status := error.status

/-- The report of a run whose session may have had its last result copied. -/
def ofSession (session : Session) (copied : Except Text Unit) : Report :=
  match session.error, copied with
  | some error, _ => failed session.lines (.session error)
  | none, .error reason => failed session.lines (.copy reason)
  | none, .ok _ =>
    { lines := session.lines, status := if session.outcome.failed then .failure else .success }

def output (report : Report) : Text :=
  report.lines.flatMap fun line ↦ line ++ ['\n']

def message (report : Report) : Option Text :=
  report.error.map RunError.message

/-! ## Fixed reports -/

def version : Report where
  lines := ["calcpad 0.1.0".toList]

/-- A row of the help: a name and, from a fixed column on, what it means. -/
def helpRow (width : Nat) (name meaning : String) : Text :=
  "  ".toList ++ name.toList.rightpad width ' ' ++ meaning.toList

def help : Report where
  lines :=
    ["Evaluate arithmetic expressions like a pocket calculator".toList,
     [],
     "Usage: calcpad [OPTIONS] [EXPRESSIONS]...".toList,
     [],
     "Arguments:".toList,
     helpRow 18 "[EXPRESSIONS]..."
       "Expressions to evaluate. Reads stdin line by line when none are given",
     [],
     "Options:".toList,
     helpRow 29 "-k, --keys <KEYS>" "Replay a whitespace-separated sequence of keypad presses",
     helpRow 29 "-c, --copy" "Copy the last successful result to the clipboard",
     helpRow 29 "    --config <CONFIG>" "Path to the config file",
     helpRow 29 "    --precision <PRECISION>" "Decimal places kept after rounding",
     helpRow 29 "-h, --help" "Print help",
     helpRow 29 "-V, --version" "Print version"]

end Report

end PocketCalculator
