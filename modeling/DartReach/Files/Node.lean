import DartReach.Text.Bytes

/-!
# The tree of files

Directories hold named nodes in ascending byte order of their names. A place in the tree is the list
of names that leads to it from the root, without links on the way.
-/

namespace DartReach

set_option autoImplicit false

abbrev Name := Bytes

/-- The names that lead from the root to a node. -/
abbrev Location := List Name

/-- What the user may do with a file or directory. -/
inductive Access where
  /-- Read it and change it. -/
  | full
  /-- Read it only. -/
  | readOnly
  /-- Neither; of a directory, also not reach anything in it. -/
  | none
deriving DecidableEq, Repr

/-- Files that store nothing. -/
inductive Device where
  /-- Swallows what is written to it. -/
  | null
  /-- Refuses what is written to it. -/
  | full
deriving DecidableEq, Repr

/-- A file, a link or a directory with everything below it. -/
inductive Node where
  | file (content : Bytes) (access : Access)
  | device (kind : Device)
  | link (target : Bytes)
  | dir (entries : List (Name × Node)) (access : Access)

namespace Node

/-- Whether the node is a directory; a link is none, whatever it leads to. -/
def isDir : Node → Bool
  | .dir _ _ => true
  | _ => false

def isLink : Node → Bool
  | .link _ => true
  | _ => false

/-- The bytes a directory itself counts for. -/
def dirSize : Nat := 4096

def size : Node → Nat
  | .file content _ => content.length
  | .device _ => 0
  | .link target => target.length
  | .dir _ _ => dirSize

def child? (name : Name) : List (Name × Node) → Option Node
  | [] => none
  | (n, node) :: rest => if n = name then some node else child? name rest

/-- The entries of a directory; other nodes have none. -/
def entries : Node → List (Name × Node)
  | .dir es _ => es
  | _ => []

def get? : Node → Location → Option Node
  | node, [] => some node
  | node, name :: rest =>
    match child? name node.entries with
    | some child => child.get? rest
    | none => none
termination_by structural _ loc => loc

def putEntry (name : Name) (node : Node) : List (Name × Node) → List (Name × Node)
  | [] => [(name, node)]
  | (n, old) :: rest =>
    if name = n then (name, node) :: rest
    else if name < n then (name, node) :: (n, old) :: rest
    else (n, old) :: putEntry name node rest

def dropEntry (name : Name) : List (Name × Node) → List (Name × Node)
  | [] => []
  | (n, old) :: rest => if n = name then rest else (n, old) :: dropEntry name rest

/-- The directory with its entries changed; other nodes stay. -/
def mapEntries (f : List (Name × Node) → List (Name × Node)) : Node → Node
  | .dir es access => .dir (f es) access
  | node => node

/-- Changes the node at a location; nothing happens if there is none. -/
def modify (f : Node → Node) : Location → Node → Node
  | [], node => f node
  | name :: rest, node =>
    match child? name node.entries with
    | some child => node.mapEntries (putEntry name (modify f rest child))
    | none => node

def emptyDir : Node := .dir [] .full

end Node

end DartReach
