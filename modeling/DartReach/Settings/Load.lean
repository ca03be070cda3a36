import DartReach.Settings.EnvironmentFile
import DartReach.Settings.Layers
import DartReach.Settings.Pubspec

/-!
# Loading settings

Settings come from flags, environment variables and a file, in this order. The file is the one that was asked
for, or the first found in the current directory and the home directory. A package without a name gets that of
the package the library belongs to.
-/

namespace DartReach

set_option autoImplicit false

inductive LoadError where
  | unreadable (e : SystemError)
  | malformed (e : Yaml.Failure)
  | undecodable (faults : List DecodeFault)
  | unnamed (e : Pubspec.Error)
  | invalid (fault : SettingsFault)
deriving DecidableEq, Repr

def LoadError.message : LoadError → Bytes
  | .unreadable e => text "read config: " ++ e.message
  | .malformed e => text "read config: While parsing config: " ++ e.message
  | .undecodable faults =>
    text "unmarshal config: decoding failed due to the following error(s):\n\n"
      ++ Bytes.join [Bytes.newline] (faults.map DecodeFault.message)
  | .unnamed e => text "package_name not configured and cannot be detected: " ++ e.message
  | .invalid fault => text "validate config: " ++ fault.message

namespace SettingsFile

def baseName : Bytes := text ".deadfiles"

/-- The file that is written for a new user. -/
def starterName : Bytes := baseName ++ text ".yaml"

/-- Names of the file in the order they are looked for. -/
def names : List Bytes :=
  ["json", "toml", "yaml", "yml", "properties", "props", "prop", "hcl", "tfvars", "dotenv", "env", "ini"].map
    (fun ending => baseName ++ text "." ++ text ending)
  ++ [baseName]

def directories (host : Host) : List Bytes :=
  host.normalize [] :: (((host.env.get? (text "HOME")).filter (!·.isEmpty)).map host.normalize).toList

def candidates (host : Host) : List Bytes :=
  (directories host).flatMap fun dir => names.map (Path.join dir)

/-- Whether a file is there; a directory is none. -/
def check (host : Host) (path : Bytes) : Except SystemError Bool :=
  match host.stat path with
  | .ok (.dir ..) => .ok false
  | .ok _ => .ok true
  | .error e => if e.cause = .notFound then .ok false else .error e

/-- The file that was asked for, or else the first that is found. -/
def locate (host : Host) (path : Bytes) : Except SystemError (Option Bytes) :=
  if path.isEmpty then do
    let found ← (candidates host).filterM (check host)
    .ok found.head?
  else .ok (some path)

/-- The entries of the file; there are none without a file. -/
def entries (host : Host) (path : Bytes) : Except LoadError (List (Yaml.Value × Yaml.Value)) :=
  match locate host path with
  | .error e => .error (.unreadable e)
  | .ok none => .ok []
  | .ok (some file) =>
    match host.read file with
    | .error e => .error (.unreadable e)
    | .ok content => (Yaml.readEntries content).mapError .malformed

end SettingsFile

/-- Settings with the name of the package the library belongs to, if they have none. -/
def Settings.named (s : Settings) (host : Host) : Except LoadError Settings :=
  if s.packageName.isEmpty ∧ ¬s.libRoot.isEmpty then
    match host.packageName s.libRoot with
    | .ok name => .ok { s with packageName := name }
    | .error e => .error (.unnamed e)
  else .ok s

def Settings.checked (s : Settings) : Except LoadError Settings :=
  match s.fault? with
  | some fault => .error (.invalid fault)
  | none => .ok s

def Host.givenSettings (host : Host) (path : Bytes) (flags : FlagSet) : Except LoadError Settings := do
  let file ← SettingsFile.entries host path
  (SettingLayers.settings ⟨flags, host.env, file⟩).mapError .undecodable

/-- The settings given to the host, complete and usable. -/
def Host.settings (host : Host) (path : Bytes) (flags : FlagSet) : Except LoadError Settings := do
  let given ← host.givenSettings path flags
  let named ← given.named host
  named.checked

/--
Loads settings; an empty `path` means that the file is searched. The variables of a `.env` file are set
before, and stay set.
-/
def Host.loadSettings (host : Host) (path : Bytes) (flags : FlagSet) :
    Host × Except LoadError Settings :=
  let host := host.loadEnvironmentFile
  (host, host.settings path flags)

end DartReach
