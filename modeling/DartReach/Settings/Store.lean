import DartReach.Settings.Basic
import DartReach.Yaml.Writer

/-!
# Writing settings to a file
-/

namespace DartReach

set_option autoImplicit false

inductive StoreError where
  | exists (path : Bytes)
  | write (e : SystemError)
deriving DecidableEq, Repr

def StoreError.message : StoreError → Bytes
  | .exists path => text "config file " ++ path ++ text " already exists"
  | .write e => text "failed to write config: " ++ e.message

/-- The settings as a document; a flag that is off is left out. -/
def Settings.document (s : Settings) : Bytes :=
  Yaml.Writer.document
    ([("lib_root", .string s.libRoot),
      ("package_name", .string s.packageName),
      ("entry_points", .strings s.options.entryPoints.items),
      ("extension", .string s.options.extension),
      ("builtin_prefixes", .strings s.options.builtinPrefixes.items),
      ("exclude", .strings s.options.exclude.items),
      ("ignore_file", .string s.options.ignoreFile),
      ("output", .string s.options.output),
      ("format", .string s.options.format)]
    ++ (if s.options.debug then [("debug", .flag true)] else []))

/-- Writes settings to a file; one that exists is kept unless it may be overwritten. -/
def Host.storeSettings (host : Host) (path : Bytes) (s : Settings) (overwrite : Bool) :
    Host × Except StoreError Unit :=
  match overwrite, host.stat path with
  | false, .ok _ => (host, .error (.exists path))
  | _, _ =>
    match host.writeFile path s.document with
    | (host, .ok ()) => (host, .ok ())
    | (host, .error e) => (host, .error (.write e))

end DartReach
