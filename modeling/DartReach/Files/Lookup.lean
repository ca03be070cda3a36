import DartReach.Files.FileSystem
import DartReach.Files.SystemError

/-!
# Following a path through the tree

A path is followed name by name. A link on the way is replaced by its target, at most `maxLinks`
times; a link at the end is followed only on request or when a slash stands behind it. Nothing inside
a directory without access can be reached, not even by `.` or `..`.
-/

namespace DartReach

set_option autoImplicit false

def maxName : Nat := 255

/-- Longest path a call takes, in bytes. -/
def maxPath : Nat := 4095

/-- Most links that are followed for one path. -/
def maxLinks : Nat := 40

structure Route where
  names : List Name
  /-- Whether a slash ends the path, so that it has to name a directory. -/
  directory : Bool
deriving DecidableEq, Repr

/-- The names of a path; repeated slashes count once. -/
def Route.ofPath (p : Bytes) : Route where
  names := (Path.segments p).filter (· ≠ [])
  directory := p.getLast? == some Bytes.slash

inductive Spot where
  /-- To a node. -/
  | taken (loc : Location) (node : Node) (directory : Bool)
  /-- To a free name in a directory. -/
  | vacant (dir : Location) (name : Name) (directory : Bool)

namespace FileSystem

/-- Follows names from `here`. At a link `jump` takes over with the directory of the link. -/
def follow (root : Node) (jump : Location → Route → Except Cause Spot) (last directory : Bool) :
    Location → List Name → Except Cause Spot
  | here, [] =>
    match root.get? here with
    | some node => .ok (.taken here node directory)
    | none => .error .notFound
  | here, name :: rest =>
    match root.get? here with
    | none => .error .notFound
    | some (.dir entries access) =>
      if access = .none then .error .denied
      else if name = Path.here then follow root jump last directory here rest
      else if name = Path.up then follow root jump last directory here.dropLast rest
      else if maxName < name.length then .error .nameTooLong
      else
        match Node.child? name entries with
        | none => if rest.isEmpty then .ok (.vacant here name directory) else .error .notFound
        | some (.link target) =>
          if rest.isEmpty && !directory && !last then
            .ok (.taken (here ++ [name]) (.link target) directory)
          else if target.isEmpty then .error .notFound
          else
            let route := Route.ofPath target
            jump (if Path.isAbsolute target then [] else here)
              ⟨route.names ++ rest, directory || (rest.isEmpty && route.directory)⟩
        | some _ => follow root jump last directory (here ++ [name]) rest
    | some _ => .error .notDirectory

/-- Follows a route with at most `links` links on the way; `last` says whether to follow one at the end. -/
def trace (root : Node) (last : Bool) : (links : Nat) → Location → Route → Except Cause Spot
  | 0, here, route =>
    follow root (fun _ _ => .error .tooManyLinks) last route.directory here route.names
  | links + 1, here, route =>
    follow root (trace root last links) last route.directory here route.names

/-- Where a path leads, a relative one from directory `start`. -/
def locate (fs : FileSystem) (start : Option Location) (last : Bool) (path : Bytes) :
    Except Cause Spot :=
  if path.contains 0 then .error .invalidArgument
  else if path.isEmpty then .error .notFound
  else if maxPath < path.length then .error .nameTooLong
  else if Path.isAbsolute path then trace fs.root last maxLinks [] (Route.ofPath path)
  else
    match start with
    | some loc => trace fs.root last maxLinks loc (Route.ofPath path)
    | none => .error .notFound

def find (fs : FileSystem) (start : Option Location) (path : Bytes) :
    Except Cause (Location × Node) :=
  match fs.locate start true path with
  | .error cause => .error cause
  | .ok (.vacant _ _ _) => .error .notFound
  | .ok (.taken loc node directory) =>
    if directory && !node.isDir then .error .notDirectory else .ok (loc, node)

end FileSystem

/-- What opening a path for writing gives: a place for a file, or a device. -/
inductive Slot where
  | file (dir : Location) (name : Name)
  | device (kind : Device)
deriving DecidableEq, Repr

namespace FileSystem

/-- Whether entries can be made in the directory at a location. -/
def writableDir (fs : FileSystem) (loc : Location) : Bool :=
  match fs.get? loc with
  | some (.dir _ access) => access == .full
  | _ => false

/--
Opens a path for writing. The file need not exist: a free name gets one, also behind links. A slash at
the end asks for a directory, which cannot be written.
-/
def openForWriting (fs : FileSystem) (start : Option Location) (path : Bytes) :
    Except Cause Slot :=
  match fs.locate start (!(Route.ofPath path).directory) path with
  | .error cause => .error cause
  | .ok (.vacant dir name directory) =>
    if directory then .error .isDirectory
    else if fs.writableDir dir then .ok (.file dir name)
    else .error .denied
  | .ok (.taken loc node directory) =>
    if directory then .error .isDirectory
    else
      match node, loc.getLast? with
      | .file _ .full, some name => .ok (.file loc.dropLast name)
      | .file _ _, _ => .error .denied
      | .device kind, _ => .ok (.device kind)
      | .dir _ _, _ => .error .isDirectory
      | .link _, _ => .error .tooManyLinks

def store (fs : FileSystem) (slot : Slot) (content : Bytes) : FileSystem :=
  match slot with
  | .file dir name => fs.putFile dir name content
  | .device _ => fs

end FileSystem

end DartReach
