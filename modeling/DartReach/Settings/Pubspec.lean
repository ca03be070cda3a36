import DartReach.Host
import DartReach.Yaml.Value

/-!
# The name of a package

A package describes itself in the file `pubspec.yaml`, which lies beside its library directory.
-/

namespace DartReach

set_option autoImplicit false

namespace Pubspec

def fileName : Bytes := text "pubspec.yaml"

inductive Error where
  | unreadable (e : SystemError)
  | malformed (e : Yaml.Failure)
  | nameless (path : Bytes)
deriving DecidableEq, Repr

def Error.message : Error → Bytes
  | .unreadable e => text "failed to read " ++ fileName ++ text ": " ++ e.message
  | .malformed e => text "failed to parse " ++ fileName ++ text ": " ++ e.message
  | .nameless path => text "no name in " ++ path

/-- The file of the package a library belongs to. -/
def path (libRoot : Bytes) : Bytes := Path.join (Path.parent (Path.clean libRoot)) fileName

def nameField : Yaml.Node.FieldType :=
  ⟨text "name", "struct \x7b Name string \"yaml:\\\"name\\\"\" \x7d"⟩

def parseName (path content : Bytes) : Except Error Bytes :=
  match Yaml.readField nameField content with
  | .error e => .error (.malformed e)
  | .ok found =>
    let name := found.getD []
    if name.isEmpty then .error (.nameless path) else .ok name

end Pubspec

def Host.packageName (host : Host) (libRoot : Bytes) : Except Pubspec.Error Bytes :=
  match host.read (Pubspec.path libRoot) with
  | .error e => .error (.unreadable e)
  | .ok content => Pubspec.parseName (Pubspec.path libRoot) content

end DartReach
