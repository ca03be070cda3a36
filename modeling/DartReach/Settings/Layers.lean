import DartReach.Settings.Basic
import DartReach.Settings.Registry

/-!
# Where settings come from

Each setting can be given by a flag, by an environment variable and in a file, and has a standard value.
All of this goes into a registry. What the registry says is then decoded: values of other types count as
the text, the list or the truth value they stand for.
-/

namespace DartReach

set_option autoImplicit false

inductive SettingKey where
  | libRoot
  | packageName
  | entryPoints
  | extension
  | builtinPrefixes
  | exclude
  | ignoreFile
  | output
  | format
  | debug
deriving DecidableEq, Repr

namespace SettingKey

/-- All settings, in the order they are reported in. -/
def all : List SettingKey :=
  [.libRoot, .packageName, .entryPoints, .extension, .builtinPrefixes, .exclude, .ignoreFile, .output,
    .format, .debug]

def name : SettingKey → String
  | .libRoot => "lib_root"
  | .packageName => "package_name"
  | .entryPoints => "entry_points"
  | .extension => "extension"
  | .builtinPrefixes => "builtin_prefixes"
  | .exclude => "exclude"
  | .ignoreFile => "ignore_file"
  | .output => "output"
  | .format => "format"
  | .debug => "debug"

def variableName : SettingKey → String
  | .libRoot => "DEADFILES_LIB_ROOT"
  | .packageName => "DEADFILES_PACKAGE_NAME"
  | .entryPoints => "DEADFILES_ENTRY_POINTS"
  | .extension => "DEADFILES_EXTENSION"
  | .builtinPrefixes => "DEADFILES_BUILTIN_PREFIXES"
  | .exclude => "DEADFILES_EXCLUDE"
  | .ignoreFile => "DEADFILES_IGNORE_FILE"
  | .output => "DEADFILES_OUTPUT"
  | .format => "DEADFILES_FORMAT"
  | .debug => "DEADFILES_DEBUG"

def flagName : SettingKey → String
  | .libRoot => "lib-root"
  | .packageName => "package"
  | .entryPoints => "entry"
  | .extension => "ext"
  | .builtinPrefixes => "builtin-prefix"
  | .exclude => "exclude"
  | .ignoreFile => "ignore-file"
  | .output => "output"
  | .format => "format"
  | .debug => "debug"

end SettingKey

namespace SettingKey

/-- What is registered for a setting that nobody gives. -/
def standard : SettingKey → Yaml.Value
  | .libRoot => .string Settings.standard.libRoot
  | .packageName => .string Settings.standard.packageName
  | .entryPoints => .list (Settings.standard.options.entryPoints.items.map .string)
  | .extension => .string Settings.standard.options.extension
  | .builtinPrefixes => .list (Settings.standard.options.builtinPrefixes.items.map .string)
  | .exclude => .list (Settings.standard.options.exclude.items.map .string)
  | .ignoreFile => .string Settings.standard.options.ignoreFile
  | .output => .string Settings.standard.options.output
  | .format => .string Settings.standard.options.format
  | .debug => .bool Settings.standard.options.debug

end SettingKey

structure SettingLayers where
  flags : FlagSet
  env : Environment
  /-- The entries of the file. -/
  file : List (Yaml.Value × Yaml.Value)

namespace SettingLayers

def withStandards (r : Registry) : Registry :=
  SettingKey.all.foldl (fun r key => r.setStandard (text key.name) key.standard) r

/-- Binds the flags of some settings, one after the other, as far as there are such flags. -/
def bindFlags (flags : FlagSet) (order : List SettingKey) (r : Registry) : Registry :=
  order.foldl (fun r key =>
    match flags.lookup key.flagName with
    | some flag => r.bindFlag (text key.name) flag
    | none => r) r

/-- The registry of the layers, with the flags bound in some order. -/
def registryIn (order : List SettingKey) (layers : SettingLayers) : Registry :=
  bindFlags layers.flags order
    (withStandards (.start layers.env (text "DEADFILES") layers.file))

end SettingLayers

inductive DecodeFault where
  | wrongType (name : Bytes) (wanted : String) (found : String)
  | notTruth (name : Bytes)
deriving DecidableEq, Repr

def DecodeFault.message : DecodeFault → Bytes
  | .wrongType name wanted found =>
    text "'" ++ name ++ text "' expected type '" ++ text wanted ++ text "', got unconvertible type '"
      ++ text found ++ text "'"
  | .notTruth name =>
    text "'" ++ name ++ text "' cannot parse value as 'bool': strconv.ParseBool: invalid syntax"

namespace Decode

/-- The type of a value that is no scalar, as messages name it. -/
def typeName : Yaml.Value → String
  | .list _ => "[]interface \x7b\x7d"
  | .map .. => "map[string]interface \x7b\x7d"
  | _ => "time.Time"

def whole (n : Int) : Bytes := (if n < 0 then text "-" else []) ++ decimal n.natAbs

def asText (name : Bytes) : Yaml.Value → Except DecodeFault Bytes
  | .null => .ok []
  | .string s => .ok s
  | .bool b => .ok (text (if b then "1" else "0"))
  | .int n => .ok (whole n)
  | .float x => .ok x.decimal
  | v => .error (.wrongType name "string" (typeName v))

def asTruth (name : Bytes) : Yaml.Value → Except DecodeFault Bool
  | .null => .ok false
  | .bool b => .ok b
  | .int n => .ok (n ≠ 0)
  | .float x => .ok (!x.isZero)
  | .string s =>
    match FlagValue.truth? s with
    | some b => .ok b
    | none => if s.isEmpty then .ok false else .error (.notTruth name)
  | v => .error (.wrongType name "bool" (typeName v))

def itemName (name : Bytes) (i : Nat) : Bytes := name ++ text "[" ++ decimal i ++ text "]"

/-- What is decoded, or everything that is wrong with it. -/
abbrev Outcome := Except (List DecodeFault)

def start {α : Type} (make : α) : Outcome α := .ok make

/-- Decodes one thing more; the faults of all things are kept in their order. -/
def and {α β : Type} : Outcome α → Outcome (α → β) → Outcome β
  | .ok a, .ok make => .ok (make a)
  | .error faults, .ok _ => .error faults
  | .ok _, .error before => .error before
  | .error faults, .error before => .error (before ++ faults)

def single {α : Type} (decoded : Except DecodeFault α) : Outcome α := decoded.mapError ([·])

/-- The items of a list as texts, from the item `i` on. -/
def asTexts (name : Bytes) : (i : Nat) → List Yaml.Value → Outcome (List Bytes)
  | _, [] => .ok []
  | i, v :: rest =>
    start (· :: ·) |> and (single (asText (itemName name i) v)) |> and (asTexts name (i + 1) rest)

/-- A value as a list of texts; a text is split at commas. -/
def asList (name : Bytes) : Yaml.Value → Outcome (List Bytes)
  | .null => .ok []
  | .string s => .ok (if s.isEmpty then [] else Bytes.split Csv.comma s)
  | .list items => asTexts name 0 items
  | .map _ [] => .ok []
  | v => asTexts name 0 [v]

def textOf (values : List (Bytes × Yaml.Value)) (key : SettingKey) : Outcome Bytes :=
  match values.lookup (text key.name) with
  | none => .ok []
  | some v => single (asText (text key.name) v)

def truthOf (values : List (Bytes × Yaml.Value)) (key : SettingKey) : Outcome Bool :=
  match values.lookup (text key.name) with
  | none => .ok false
  | some v => single (asTruth (text key.name) v)

def listOf (values : List (Bytes × Yaml.Value)) (key : SettingKey) : Outcome OptionalList :=
  match values.lookup (text key.name) with
  | none => .ok none
  | some v => (asList (text key.name) v).map some

/-- The settings that named values stand for, or what is wrong with them in the order of the settings. -/
def settings (values : List (Bytes × Yaml.Value)) : Outcome Settings :=
  let make libRoot packageName entryPoints extension builtinPrefixes exclude ignoreFile output format
      debug : Settings :=
    ⟨libRoot, packageName,
      ⟨entryPoints, extension, builtinPrefixes, exclude, ignoreFile, output, format, debug⟩⟩
  start make
    |> and (textOf values .libRoot)
    |> and (textOf values .packageName)
    |> and (listOf values .entryPoints)
    |> and (textOf values .extension)
    |> and (listOf values .builtinPrefixes)
    |> and (listOf values .exclude)
    |> and (textOf values .ignoreFile)
    |> and (textOf values .output)
    |> and (textOf values .format)
    |> and (truthOf values .debug)

end Decode

namespace SettingLayers

def settingsIn (order : List SettingKey) (layers : SettingLayers) : Decode.Outcome Settings :=
  Decode.settings (layers.registryIn order).contents

def settings (layers : SettingLayers) : Decode.Outcome Settings := layers.settingsIn SettingKey.all

end SettingLayers

end DartReach
