import DartReach.Files.Lookup

/-!
# The host a program runs on

Files, current directory and environment variables: everything outside the program that an answer can
depend on. Operations that change it return the new host, so that two states can be compared. A write can
fail when its file is already open; the file then keeps what was stored of it.
-/

namespace DartReach

set_option autoImplicit false

/-- The variables of a process; the first entry of a name counts. -/
abbrev Environment := List (Bytes × Bytes)

namespace Environment

def get? (env : Environment) (name : Bytes) : Option Bytes := env.lookup name

def set (env : Environment) (name value : Bytes) : Environment :=
  (name, value) :: env.filter (·.1 ≠ name)

def unset (env : Environment) (name : Bytes) : Environment := env.filter (·.1 ≠ name)

end Environment

/-- What becomes of bytes that are written to an open file. -/
structure Medium where
  /-- How many of them are stored, and why no more; `none` for any number. -/
  limit? : Option (Nat × Cause)
  /-- Why the file does not close. -/
  closing? : Option Cause
deriving DecidableEq, Repr

namespace Medium

def ample : Medium := ⟨none, none⟩

def kept (m : Medium) (content : Bytes) : Bytes :=
  match m.limit? with
  | none => content
  | some (room, _) => content.take room

/-- The first call that fails when a content is written and the file is closed. -/
def fault? (m : Medium) (content : Bytes) : Option (Call × Cause) :=
  match m.limit? with
  | none => m.closing?.map (.close, ·)
  | some (room, cause) =>
    if room < content.length then some (.write, cause) else m.closing?.map (.close, ·)

end Medium

/-- What a program finds around it. -/
structure Host where
  files : FileSystem
  /-- The current directory; `none` once it was removed. -/
  workingDir : Option Location
  env : Environment
  /-- What the disk makes of a file at a place. -/
  media : Location → Medium := fun _ => .ample

namespace Host

def pathOf (loc : Location) : Bytes := Path.render true loc

/--
The absolute normal form of a path. The current directory is spelled by its names from the top; a variable
`PWD` that leads to it through links is not asked. Without a current directory a relative path is only
cleaned.
-/
def normalize (host : Host) (path : Bytes) : Bytes :=
  if Path.isAbsolute path then Path.clean path
  else
    match host.workingDir with
    | some loc => Path.join (pathOf loc) path
    | none => Path.clean path

def find (host : Host) (path : Bytes) : Except Cause (Location × Node) :=
  host.files.find host.workingDir path

/-- The node a path names, as asked for by its status. -/
def stat (host : Host) (path : Bytes) : Except SystemError Node :=
  match host.find path with
  | .ok (_, node) => .ok node
  | .error cause => .error ⟨.stat, path, cause⟩

/--
The content of a file. A device is read as empty; of the full device this is not so, no read of it ends.
-/
def read (host : Host) (path : Bytes) : Except SystemError Bytes :=
  match host.find path with
  | .error cause => .error ⟨.open, path, cause⟩
  | .ok (_, .file content access) =>
    if access = .none then .error ⟨.open, path, .denied⟩ else .ok content
  | .ok (_, .dir _ access) =>
    if access = .none then .error ⟨.open, path, .denied⟩ else .error ⟨.read, path, .isDirectory⟩
  | .ok (_, _) => .ok []

/-- The size of the file a path names; zero where it has none. -/
def fileSize (host : Host) (path : Bytes) : Nat :=
  match host.stat path with
  | .ok node => node.size
  | .error _ => 0

/-- Opens a file for writing; an existing one is emptied. -/
def create (host : Host) (path : Bytes) : Except SystemError (Slot × Host) :=
  match host.files.openForWriting host.workingDir path with
  | .ok slot => .ok (slot, { host with files := host.files.store slot [] })
  | .error cause => .error ⟨.open, path, cause⟩

def medium (host : Host) : Slot → Medium
  | .file dir name => host.media (dir ++ [name])
  | .device .full => ⟨some (0, .noSpace), none⟩
  | .device .null => .ample

/-- Stores in an open slot what there is room for. -/
def fill (host : Host) (slot : Slot) (content : Bytes) : Host :=
  { host with files := host.files.store slot ((host.medium slot).kept content) }

/--
Stores a whole file, made if it is missing. If a call fails after the first, the file stays as it is then.
-/
def writeFile (host : Host) (path content : Bytes) : Host × Except SystemError Unit :=
  match host.create path with
  | .error e => (host, .error e)
  | .ok (slot, host) =>
    (host.fill slot content,
      match (host.medium slot).fault? content with
      | some (call, cause) => .error ⟨call, path, cause⟩
      | none => .ok ())

def changeDir (host : Host) (path : Bytes) : Except SystemError Host :=
  match host.find path with
  | .error cause => .error ⟨.chdir, path, cause⟩
  | .ok (loc, .dir _ access) =>
    if access = .none then .error ⟨.chdir, path, .denied⟩
    else .ok { host with workingDir := some loc }
  | .ok (_, _) => .error ⟨.chdir, path, .notDirectory⟩

/-- Makes the directories of `names` from `here` on where they are missing. -/
def makeDirsFrom (host : Host) : Bytes → List Bytes → Host
  | _, [] => host
  | reached, name :: rest =>
    let path := reached ++ Bytes.slash :: name
    match host.files.locate host.workingDir true path with
    | .ok (.vacant dir name _) =>
      makeDirsFrom { host with files := host.files.putDir dir name } path rest
    | _ => makeDirsFrom host path rest

/-- Makes the directory of an absolute path, with its parents. -/
def makeDirs (host : Host) (path : Bytes) : Host :=
  makeDirsFrom host [] (Route.ofPath path).names

def makeLink (host : Host) (path target : Bytes) : Host :=
  match host.files.locate host.workingDir false path with
  | .ok (.vacant dir name _) => { host with files := host.files.putLink dir name target }
  | _ => host

/-- Changes what the user may do with the file or directory a path names. -/
def setAccess (host : Host) (path : Bytes) (access : Access) : Host :=
  match host.find path with
  | .ok (loc, _) => { host with files := host.files.setAccess loc access }
  | .error _ => host

/-- Removes what a path names with everything below it; the current directory can get lost. -/
def remove (host : Host) (path : Bytes) : Host :=
  match host.files.locate host.workingDir false path with
  | .ok (.taken loc _ _) =>
    match loc.getLast? with
    | some name =>
      { host with
        files := host.files.drop loc.dropLast name
        workingDir := host.workingDir.filter (!loc.isPrefixOf ·) }
    | none => host
  | _ => host

end Host

end DartReach
