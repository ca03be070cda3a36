import DartReach.CommandLine.Command
import DartReach.Settings.Load
import DartReach.Settings.Store

/-!
# Running commands

What a call of the program does to its host, prints and logs.
-/

namespace DartReach

set_option autoImplicit false

inductive CommandError where
  | flags (e : FlagError)
  | tooManyArguments (count : Nat)
  | unknownWord (command : Command) (word : Bytes)
  | load (e : LoadError)
  | analysis (e : AnalysisError)
  | store (e : StoreError)
deriving DecidableEq, Repr

def CommandError.message : CommandError → Bytes
  | .flags e => e.message
  | .tooManyArguments count => text "accepts at most 1 arg(s), received " ++ decimal count
  | .unknownWord command word =>
    text "unknown command " ++ Quoted.quote word ++ text " for " ++ Quoted.quote (text command.path)
  | .load e => e.message
  | .analysis e => e.message
  | .store e => e.message

/-- What a call of the program leaves behind. -/
structure CommandOutcome where
  host : Host
  stdout : Bytes
  log : List Log.Record
  result : Except CommandError Unit

namespace CommandOutcome

/-- A command that printed something and does not care whether it arrived. -/
def printed (host : Host) (terminal : Terminal) (s : Bytes) : CommandOutcome :=
  ⟨host, terminal.shows s, [], .ok ()⟩

/-- A command that failed before it did anything else. -/
def failed (host : Host) (e : CommandError) : CommandOutcome := ⟨host, [], [], .error e⟩

end CommandOutcome

namespace Command

def versionText : Bytes := text "deadfiles dev\n"

/-- The settings file that arguments name; empty if they name none. -/
def settingsPath (arguments : Arguments) : Bytes := arguments.values.textOf "config"

/-- The flags of an analysis; a positional argument stands for the library root. -/
def analysisFlags (arguments : Arguments) : FlagSet :=
  FlagSet.ofValues Command.analyze.allFlags <|
    match arguments.positional with
    | libRoot :: _ => arguments.values.put SettingKey.libRoot.flagName (.text libRoot)
    | [] => arguments.values

def runAnalysis (host : Host) (patience : Discovery.Patience) (terminal : Terminal)
    (arguments : Arguments) : CommandOutcome :=
  if 1 < arguments.positional.length then
    .failed host (.tooManyArguments arguments.positional.length)
  else
    match host.loadSettings (settingsPath arguments) (analysisFlags arguments) with
    | (host, .error e) => .failed host (.load e)
    | (host, .ok settings) =>
      let o := settings.analysis.run host patience terminal
      ⟨o.host, o.stdout, o.log,
        match o.result with
        | .ok _ => .ok ()
        | .error e => .error (.analysis e)⟩

/-- The settings of a new user; the package is named after the library if no name was given. -/
def starterSettings (host : Host) (packageName : Bytes) : Settings :=
  let found :=
    match host.packageName Settings.standard.libRoot with
    | .ok name => name
    | .error _ => []
  { Settings.standard with packageName := if packageName.isEmpty then found else packageName }

def runInit (host : Host) (terminal : Terminal) (arguments : Arguments) : CommandOutcome :=
  match arguments.positional with
  | word :: _ => .failed host (.unknownWord .init word)
  | [] =>
    let settings := starterSettings host (arguments.values.textOf "package")
    let path := SettingsFile.starterName
    match host.storeSettings path settings (arguments.values.isOn "force") with
    | (host, .ok ()) => .printed host terminal (text "Config written to " ++ path ++ [Bytes.newline])
    | (host, .error e) => .failed host (.store e)

def run (command : Command) (host : Host) (patience : Discovery.Patience) (terminal : Terminal)
    (arguments : List Bytes) : CommandOutcome :=
  match Arguments.parse command.allFlags arguments with
  | .error e => .failed host (.flags e)
  | .ok arguments =>
    if arguments.values.isOn Arguments.helpName then .printed host terminal command.helpText
    else
      match command with
      | .analyze => runAnalysis host patience terminal arguments
      | .init => runInit host terminal arguments
      | .version => .printed host terminal versionText
      | .help => .printed host terminal (select arguments.positional).1.helpText

end Command

def Host.runProgram (host : Host) (patience : Discovery.Patience) (terminal : Terminal)
    (arguments : List Bytes) : CommandOutcome :=
  let (command, arguments) := Command.select arguments
  command.run host patience terminal arguments

end DartReach
