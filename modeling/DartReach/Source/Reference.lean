import DartReach.Host
import DartReach.Source.Declaration
import DartReach.Text.Utf8

/-!
# What a declaration refers to

A reference into the own package is read from the library root, a reference into another package or a
built-in library leads to no file of the project, and everything else is a path, read from the directory
of the file that holds the declaration. Answers are normal forms, so that one file has one name.
-/

namespace DartReach

set_option autoImplicit false

structure Resolver where
  /-- The library root in normal form. -/
  libRoot : Bytes
  packageName : Bytes
  /-- References that begin with one of these lead to no file. -/
  builtins : List Bytes
deriving DecidableEq, Repr

namespace Resolver

/-- Begins every reference into a package. -/
def scheme : Bytes := text "package:"

/-- Begins every reference into the own package. -/
def own (r : Resolver) : Bytes := scheme ++ r.packageName ++ [Bytes.slash]

/-- A resolver for the package whose library lies at `libRoot`. -/
def ofRoot (host : Host) (libRoot packageName : Bytes) (builtins : List Bytes) : Resolver :=
  ⟨host.normalize libRoot, packageName, builtins⟩

/-- Whether a reference, not being one into the own package, leads out of the project. -/
def isForeign (r : Resolver) (target : Bytes) : Bool :=
  target.startsWith scheme || r.builtins.any (target.startsWith ·)

/-- The file that `target` means in file `source`, if it can be one of the project. -/
def resolve (host : Host) (r : Resolver) (source target : Bytes) : Option Bytes :=
  match Bytes.after? r.own target with
  | some rest => some (Path.join r.libRoot rest)
  | none =>
    if r.isForeign target then none
    else if Path.isAbsolute target then some (Path.clean target)
    else some (Path.join (Path.parent (host.normalize source)) target)

/-- The files that the declarations in `content` refer to, ascending. -/
def resolveContent (host : Host) (r : Resolver) (source content : Bytes) : List Bytes :=
  Bytes.sortUnique ((Declaration.targets content).filterMap (r.resolve host source))

end Resolver

inductive SourceError where
  | unreadable (e : SystemError)
  | notText
deriving DecidableEq, Repr

def SourceError.message : SourceError → Bytes
  | .unreadable e => text "failed to read file: " ++ e.message
  | .notText => text "content is not valid UTF-8"

/-- What one file refers to. A file that cannot be read refers to nothing. -/
structure FileImports where
  path : Bytes
  imports : List Bytes
  error? : Option SourceError
deriving DecidableEq, Repr

/-- The content of a source file, which has to be text. -/
def Host.readSource (host : Host) (path : Bytes) : Except SourceError Bytes :=
  match host.read path with
  | .error e => .error (.unreadable e)
  | .ok content => if Utf8.valid content then .ok content else .error .notText

/-- Reads a file and resolves its declarations. -/
def Resolver.resolveFile (host : Host) (r : Resolver) (path : Bytes) : FileImports :=
  let path := host.normalize path
  match host.readSource path with
  | .ok content => ⟨path, r.resolveContent host path content, none⟩
  | .error e => ⟨path, [], some e⟩

end DartReach
