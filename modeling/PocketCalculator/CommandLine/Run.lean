import PocketCalculator.CommandLine.Report
import PocketCalculator.Session.Lines

/-!
# Running the calculator

A run reads the arguments, loads the settings, holds the session that the arguments ask for and
copies its last result if they ask for that. It is a function of what its host answers, and nothing
is printed on the way: the report of a run holds all of its output.
-/

namespace PocketCalculator

/-- The options of a run: those of the settings, with the number of places that the arguments may
give in place of theirs. -/
def Request.options (request : Request) (settings : Settings) : Options :=
  { settings.toOptions with places := request.precision.getD settings.places }

namespace Host

variable {m : Type → Type} [Monad m]

/-- The session that a request asks for. Standard input is read only for want of keys and
expressions. -/
def session (host : Host m) (request : Request) (options : Options) : m Session := do
  match request.keys with
  | some keys => return .ofKeys options keys
  | none =>
    if request.expressions.isEmpty then return .ofInput options (← host.input)
    else return .ofExpressions options request.expressions

/-- Copies the last result of a session that was finished, if that is asked for and there is
one. -/
def copyResult (host : Host m) (request : Request) (session : Session) :
    m (Except Text Unit) := do
  match request.copy && session.error.isNone, session.outcome.copyable with
  | true, some text => host.copy text
  | _, _ => return .ok ()

def runRequest (host : Host m) (request : Request) : m Report := do
  match ← host.loadSettings request.config with
  | .error error => return .failed [] (.settings error)
  | .ok settings =>
    let session ← host.session request (request.options settings)
    return .ofSession session (← host.copyResult request session)

def run (host : Host m) (arguments : List Text) : m Report := do
  match Request.ofArguments arguments with
  | .ok request => host.runRequest request
  | .error .version => return .version
  | .error .help => return .help
  | .error (.usage error) => return .failed [] (.usage error)

end Host

end PocketCalculator
