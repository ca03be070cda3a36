import DartReach.Analysis
import DartReach.Text.Printable

/-!
# Settings

What a user can set: the library, its package, and how it is analysed.
-/

namespace DartReach

set_option autoImplicit false

structure Settings where
  libRoot : Bytes
  packageName : Bytes
  options : AnalysisOptions
deriving DecidableEq, Repr

inductive SettingsFault where
  | noLibRoot
  | noPackage
  | noExtension
  | badFormat (format : Bytes)
deriving DecidableEq, Repr

def SettingsFault.message : SettingsFault → Bytes
  | .noLibRoot => text "lib_root must not be empty"
  | .noPackage => text "package_name must not be empty"
  | .noExtension => text "extension must not be empty"
  | .badFormat format =>
    text "format must be " ++ Quoted.quote AnalysisOptions.textFormat ++ text " or "
      ++ Quoted.quote AnalysisOptions.jsonFormat ++ text ", got " ++ Quoted.quote format

namespace Settings

/-- The settings of a user who sets nothing; the package is then looked up. -/
def standard : Settings where
  libRoot := text "lib"
  packageName := []
  options := { AnalysisOptions.standard with exclude := some [] }

def isBlank (s : Bytes) : Bool := (Utf8.decode s).all isSpace

def fault? (s : Settings) : Option SettingsFault :=
  if isBlank s.libRoot then some .noLibRoot
  else if isBlank s.packageName then some .noPackage
  else if s.options.extension.isEmpty then some .noExtension
  else if s.options.format ≠ AnalysisOptions.textFormat
      ∧ s.options.format ≠ AnalysisOptions.jsonFormat then
    some (.badFormat s.options.format)
  else none

def analysis (s : Settings) : Analysis := ⟨s.libRoot, s.packageName, s.options⟩

def apply (s : Settings) (a : Analysis) : Analysis := { a with options := s.options }

end Settings

end DartReach
