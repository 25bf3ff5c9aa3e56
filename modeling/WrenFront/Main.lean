import WrenFront.Command

/-! The program on the file system of the machine. It reads what the command's path leads to, runs
the command, and writes what the run shows. -/

namespace WrenFront

def SystemError.ofIO : IO.Error → SystemError
  | .noFileOrDirectory .. => .noEntry
  | .permissionDenied .. => .permissionDenied
  | .inappropriateType .. => .notDirectory
  | error => .other (toString error)

def readFile (path : String) : IO File := do
  match ← (IO.FS.readBinFile path).toBaseIO with
  | .ok content => return { content := content.data.toList }
  | .error error => return { refusal := some (.ofIO error), content := [] }

/-- Reads the scripts below a directory. Links stay links, and other files are left unread. -/
partial def readDirectory (path : String) : IO Directory := do
  match ← (System.mkFilePath [path]).readDir.toBaseIO with
  | .error error => return .mk (some (.ofIO error)) []
  | .ok listing =>
    let mut entries := #[]
    for found in listing do
      let below := found.path.toString
      let node ← match (← found.path.symlinkMetadata).type with
        | .dir => Node.directory <$> readDirectory below
        | .file =>
          if Path.extension? found.fileName.toList = some ScriptFile.fileExtension then
            Node.file <$> readFile below
          else pure (Node.file { content := [] })
        | _ => pure (Node.link [])
      entries := entries.push (.mk (Text.Utf8.encode found.fileName) node)
    return .mk none entries.toList

def readTarget (path : String) : IO (Except SystemError Target) := do
  match ← (System.mkFilePath [path]).metadata.toBaseIO with
  | .error error => return .error (.ofIO error)
  | .ok found =>
    match found.type with
    | .dir => return .ok (.directory (← readDirectory path))
    | _ => return .ok (.file (← readFile path))

def Outcome.write (outcome : Outcome) : IO UInt32 := do
  IO.print outcome.stdout
  for report in outcome.reports do
    IO.eprintln report
  for cause in outcome.causes do
    IO.eprintln ("  " ++ cause)
  for line in outcome.summary do
    IO.eprintln line
  return outcome.exitCode.toUInt32

end WrenFront

open WrenFront in
def main (arguments : List String) : IO UInt32 := do
  match Arguments.parse arguments with
  | .error halt =>
    if let .usage error := halt then
      IO.eprintln s!"error: {error.message}\n\n{Arguments.usageText}"
    halt.outcome.write
  | .ok command => (command.run (← readTarget command.path)).write
