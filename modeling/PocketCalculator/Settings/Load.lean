import PocketCalculator.Files.Basic
import PocketCalculator.Settings.Basic

/-!
# Loading settings

Settings are kept in a file. Unless another one is named, it is in a directory of its own below the
one that the user has chosen for settings, or else below `.config` in the home directory, and there
need not be one.
-/

namespace PocketCalculator

/-! ## The place of the file -/

/-- The path of a name in a directory. -/
def joinPath (directory name : Text) : Text :=
  if directory.isEmpty || directory.getLast? = some '/' then directory ++ name
  else directory ++ '/' :: name

def isAbsolute (path : Text) : Bool :=
  path.head? = some '/'

/-- The directory of the user's settings. A chosen one counts only if its path begins at the root;
the home directory counts if its path is not empty. -/
def settingsDirectory (configHome home : Option Text) : Option Text :=
  match configHome.filter isAbsolute with
  | some directory => some directory
  | none => (home.filter (!·.isEmpty)).map (joinPath · ".config".toList)

/-- The file that holds the settings if no other is named. -/
def defaultSettingsPath (configHome home : Option Text) : Option Text :=
  (settingsDirectory configHome home).map fun directory ↦
    joinPath (joinPath directory "calcpad".toList) "config.toml".toList

/-! ## Loading -/

inductive SettingsError
  /-- The file cannot be read. -/
  | unreadable (path : Text) (cause : ReadError)
  /-- The file describes no settings. -/
  | malformed (path : Text) (fault : Toml.Fault)
deriving DecidableEq

namespace SettingsError

/-- What a report of a failure to load settings says of its cause, after the path of the file. Of
a file that describes no settings it says nothing more, unless a key is too long. -/
def cause : SettingsError → Text
  | unreadable _ cause => ": ".toList ++ cause.message
  | malformed _ .malformed => []
  | malformed _ .keyTooLong => ": recursion limit\n".toList

def message (error : SettingsError) : Text :=
  match error with
  | unreadable path _ => "failed to read ".toList ++ path ++ error.cause
  | malformed path _ => "invalid config ".toList ++ path ++ error.cause

/-- The report of a failure to load settings, followed by its cause once more. -/
def fullMessage (error : SettingsError) : Text :=
  error.message ++ error.cause

end SettingsError

/-- The settings that the content of a file describes. -/
def Settings.ofContent (path : Text) : Except ReadError Text → Except SettingsError Settings
  | .error cause => .error (.unreadable path cause)
  | .ok text => (Settings.read text).mapError (.malformed path)

variable {m : Type → Type} [Monad m]

/-- The settings in the file at a path. -/
def Host.settingsAt (host : Host m) (path : Text) : m (Except SettingsError Settings) := do
  return Settings.ofContent path (← host.readText path)

/-- The settings in the file that is named, which there must be, or else in the default one, which
there need not be. -/
def Host.loadSettings (host : Host m) (path : Option Text) :
    m (Except SettingsError Settings) := do
  match path with
  | some path => host.settingsAt path
  | none =>
    match defaultSettingsPath host.configHome host.home with
    | none => return .ok {}
    | some path => if ← host.isPresent path then host.settingsAt path else return .ok {}

end PocketCalculator
