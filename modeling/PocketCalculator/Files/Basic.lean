import PocketCalculator.Text.Utf8

/-!
# Files

What the calculator asks of the system that it runs on, and what can go wrong when a file is read.
A `Host` answers in a monad of its own: a program's host acts, and that of a fixed directory tree
computes.
-/

namespace PocketCalculator

inductive ReadError
  /-- There is no such file. -/
  | notFound
  /-- Something on the way to it is no directory. -/
  | notDirectory
  /-- It is a directory. -/
  | isDirectory
  /-- The path, or a name in it, is longer than the system allows. -/
  | nameTooLong
  /-- The path has a null character in it, which no path can have. -/
  | nulInPath
  /-- What it holds is no text. -/
  | notText
  /-- The system gives a reason of its own. -/
  | other (reason : Text)
deriving DecidableEq

def ReadError.message : ReadError → Text
  | notFound => "No such file or directory (os error 2)".toList
  | notDirectory => "Not a directory (os error 20)".toList
  | isDirectory => "Is a directory (os error 21)".toList
  | nameTooLong => "File name too long (os error 36)".toList
  | nulInPath => "file name contained an unexpected NUL byte".toList
  | notText => "stream did not contain valid UTF-8".toList
  | other reason => reason

/-- What the calculator asks of its system. -/
structure Host (m : Type → Type) where
  /-- The bytes of the file at a path. -/
  read : Text → m (Except ReadError Bytes)
  /-- Whether there is anything at a path. -/
  isPresent : Text → m Bool
  /-- All of standard input. -/
  input : m Bytes
  /-- Puts a text on the clipboard, or says why it cannot. -/
  copy : Text → m (Except Text Unit)
  /-- The directory that the user has chosen for settings, if any. -/
  configHome : Option Text
  /-- The user's home directory. -/
  home : Option Text

def Host.readText {m : Type → Type} [Monad m] (host : Host m) (path : Text) :
    m (Except ReadError Text) := do
  match ← host.read path with
  | .error error => return .error error
  | .ok bytes =>
    match decodeUtf8? bytes with
    | some text => return .ok text
    | none => return .error .notText

end PocketCalculator
