import PocketCalculator.CommandLine.Run

/-!
# The program

The calculator at the command line: its host is the system it runs on.
-/

namespace PocketCalculator

/-- Why the system does not let a file be read. Its error code may have either sign. -/
def ReadError.ofSystem (error : IO.Error) : ReadError :=
  match error with
  | .noFileOrDirectory .. => .notFound
  | .inappropriateType _ code _ =>
    if code = 20 || -code = 20 then .notDirectory else .isDirectory
  | error => .other (toString error).toList

def readSystemFile (path : Text) : IO (Except ReadError Bytes) := do
  try
    let bytes ← IO.FS.readBinFile (String.ofList path)
    return .ok bytes.data.toList
  catch error => return .error (.ofSystem error)

/-- What is left of a stream, after the bytes read before. -/
partial def readStream (stream : IO.FS.Stream) (before : ByteArray) : IO ByteArray := do
  let bytes ← stream.read 65536
  if bytes.isEmpty then return before else readStream stream (before ++ bytes)

/-- The system as a host. It offers no clipboard. -/
def systemHost : IO (Host IO) := do
  let configHome ← IO.getEnv "XDG_CONFIG_HOME"
  let home ← IO.getEnv "HOME"
  return {
    read := readSystemFile
    isPresent := fun path ↦ do
      match ← readSystemFile path with
      | .error .notFound | .error .notDirectory => return false
      | _ => return true
    input := do return (← readStream (← IO.getStdin) .empty).data.toList
    copy := fun _ ↦ return .error "there is no clipboard".toList
    configHome := configHome.map String.toList
    home := home.map String.toList }

end PocketCalculator

def main (arguments : List String) : IO UInt32 := do
  let host ← PocketCalculator.systemHost
  let report ← host.run (arguments.map String.toList)
  IO.print (String.ofList report.output)
  if let some message := report.message then
    IO.eprintln (String.ofList message)
  return report.status.code.toUInt32
