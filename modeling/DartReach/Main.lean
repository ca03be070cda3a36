import DartReach.CommandLine.Run
import DartReach.Number.Duration
import Std.Time.Format

/-!
# The program

A call copies what it can look at into a host, runs there, and then writes the file that it changed.
-/

namespace DartReach.Program

set_option autoImplicit false

/-- A path or a text for the operating system. -/
def shown (s : Bytes) : String := String.ofList (Utf8.decode s)

def variableNames : List String := SettingKey.all.map SettingKey.variableName ++ ["HOME", "NO_COLOR", "TERM"]

def environment : IO Environment :=
  variableNames.foldlM (fun env name => do
    match ← IO.getEnv name with
    | some value => return env.set (text name) (text value)
    | none => return env) []

/-- What a path names, if it names something. -/
def kind? (path : Bytes) : IO (Option IO.FS.FileType) := do
  try
    let info ← ((← IO.currentDir) / shown path).symlinkMetadata
    return some info.type
  catch _ => return none

def put (host : Host) (path content : Bytes) : Host :=
  let host := host.makeDirs (Path.parent path)
  (host.writeFile path content).1

/-- Where a link that leads nowhere leads to. -/
def nowhere : Bytes := text "/missing target"

/--
Copies what an absolute path names, and of a directory, if `deep`, everything below it. What cannot be read is
copied as unreadable.
-/
partial def copy (deep : Bool) (host : Host) (path : Bytes) : IO Host := do
  let place := (← IO.currentDir) / shown path
  match ← kind? path with
  | none => return host
  | some .dir =>
    let host := host.makeDirs path
    if deep then
      try
        (← place.readDir).foldlM (fun host e => copy deep host (Path.join path (text e.fileName))) host
      catch _ => return host.setAccess path .none
    else return host
  | some .symlink =>
    if ← place.pathExists then
      let target := text (← IO.FS.realPath place).toString
      let host ← copy deep host target
      return (host.makeDirs (Path.parent path)).makeLink path target
    else return (host.makeDirs (Path.parent path)).makeLink path nowhere
  | some _ =>
    try
      return put host path (← IO.FS.readBinFile place).toList
    catch _ => return (put host path []).setAccess path .none

/-- Copies files, given by paths, that the host may miss. -/
def copyAll (deep : Bool) (host : Host) (paths : List Bytes) : IO Host :=
  paths.foldlM (fun host path => copy deep host (host.normalize path)) host

/-- The settings a call is given, as far as they can be told. -/
def settingsOf (host : Host) (arguments : Arguments) : Settings :=
  (host.givenSettings (Command.settingsPath arguments) (Command.analysisFlags arguments)).toOption.getD
    Settings.standard

/-- A host with everything that a call can look at, and the file that it can change. -/
def surroundings (call : List Bytes) : IO (Host × Bytes) := do
  let here := text (← IO.currentDir).toString
  let host : Host := { files := FileSystem.empty, workingDir := none, env := ← environment }
  let host := ((host.makeDirs here).changeDir here).toOption.getD host
  let host ← copyAll false host [EnvironmentFile.fileName]
  let (command, rest) := Command.select call
  let arguments := (Arguments.parse command.allFlags rest).toOption.getD ⟨[], []⟩
  let host ← copyAll false host
    (Command.settingsPath arguments :: SettingsFile.candidates host.loadEnvironmentFile)
  let settings := settingsOf host.loadEnvironmentFile arguments
  let host ← copyAll true host [settings.libRoot, Path.join settings.libRoot settings.options.ignoreFile]
  let host ← copyAll false host
    [Pubspec.path settings.libRoot, Path.parent settings.options.output, settings.options.output]
  return (host, if command = .init then SettingsFile.starterName else settings.options.output)

def commit (before after : Host) (path : Bytes) : IO Unit := do
  match (before.read path).toOption, (after.read path).toOption with
  | old, some content =>
    if old ≠ some content then
      IO.FS.writeBinFile ((← IO.currentDir) / shown path) ⟨content.toArray⟩
  | _, none => return

/-- Whether a call prints to a terminal that shows colours. -/
def colored (host : Host) : IO Bool := do
  return host.env.get? (text "TERM") ≠ some (text "dumb") && (← (← IO.getStdout).isTty)

def writeLine (stream : IO.FS.Stream) (line : Bytes) : IO Unit :=
  stream.write ⟨(line ++ [Bytes.newline]).toArray⟩

def run (arguments : List String) : IO UInt32 := do
  let started ← IO.monoNanosNow
  let call := arguments.map text
  let (host, changed) ← surroundings call
  let outcome := host.runProgram none (.endless (← colored host)) call
  commit host outcome.host changed
  let elapsed := Duration.render ((← IO.monoNanosNow) - started)
  let now := (← Std.Time.DateTime.now).format "uuuu-MM-dd'T'HH:mm:ss.SSSXXX"
  let errors ← IO.getStderr
  for record in outcome.log do
    writeLine errors (text "time=" ++ text now ++ text " " ++ record.line elapsed)
  (← IO.getStdout).write ⟨outcome.stdout.toArray⟩
  match outcome.result with
  | .ok () => return 0
  | .error e =>
    writeLine errors e.message
    return 1

end DartReach.Program

def main (arguments : List String) : IO UInt32 := DartReach.Program.run arguments
