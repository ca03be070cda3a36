import DartReach.Glob.Compile
import DartReach.Host
import DartReach.Ignore.Rule
import DartReach.Log

/-!
# Discovery of source files

A walk through the directory tree below a root, every directory in byte order of its entries and before
what lies in it. Links are not followed, except the root itself. What an exclude pattern matches or the
ignore file ignores is left out, a directory with everything below it; what cannot be listed is skipped.

The walk is the list of its visits. Whoever asked for it may call it off between two visits; then there is no
list of files at all. It goes down from directory to directory and is not bound by `maxPath`, the longest path
that a lookup takes: below such a path a real walk would find nothing more to list, this one goes on.
-/

namespace DartReach.Discovery

set_option autoImplicit false

structure Options where
  /-- Every file found has a name that ends so. -/
  extension : Bytes
  /-- Glob patterns for paths relative to the root. -/
  exclude : List Bytes
  /-- A file of ignore rules; a relative path is read from the root, an empty one means none. -/
  ignoreFile : Bytes
deriving DecidableEq, Repr

inductive Error where
  | noExtension
  | badPattern (pattern : Bytes) (e : Glob.Error)
  | cancelled
  /-- A pattern or an ignore rule cannot be applied. -/
  | brokenRule
deriving DecidableEq, Repr

def Error.message : Error → Bytes
  | .noExtension => text "no file extension provided"
  | .badPattern pattern e =>
    text "invalid exclude pattern " ++ Quoted.quote pattern ++ text ": " ++ e.message
  | .cancelled => text "context canceled"
  | .brokenRule => text "broken rule"

/-- How often a walk may go on before it is called off; `none` if it never is. -/
abbrev Patience := Option Nat

inductive Visit where
  /-- Nothing to note: a directory that is entered, or a file of another kind. -/
  | passed
  /-- A file that was looked for. -/
  | found (path : Bytes)
  /-- Left out, with everything below. -/
  | excluded (rel : Bytes)
  /-- A directory that cannot be listed. -/
  | unlisted (e : SystemError)
  /-- A rule that cannot be applied; the walk ends here. -/
  | broken
deriving DecidableEq, Repr

def Visit.log : Visit → List Log.Record
  | .excluded rel => [Log.debug "Excluded from analysis" [("path", .text rel)]]
  | .unlisted e =>
    [Log.warn "Failed to read path" [("path", .text e.path), ("error", .text e.message)]]
  | _ => []

def Visit.file? : Visit → Option Bytes
  | .found path => some path
  | _ => none

/-- What a walk needs to know. -/
structure Walk where
  /-- The root, with a slash at its end. -/
  root : Bytes
  extension : Bytes
  /-- Whether a path, relative to the root, is left out; `none` if a rule cannot be applied. -/
  leavesOut : (rel : Bytes) → (isDir : Bool) → Option Bool

mutual

/-- The visits to a node whose path relative to the root is `rel`. -/
def Walk.node (w : Walk) (rel name : Bytes) : Node → List Visit
  | .dir entries access =>
    match w.leavesOut rel true with
    | none => [.broken]
    | some true => [.excluded rel]
    | some false =>
      .passed ::
        (if access = .none then [.unlisted ⟨.open, w.root ++ rel, .denied⟩]
          else w.entries (rel ++ [Bytes.slash]) entries)
  | _ =>
    match w.leavesOut rel false with
    | none => [.broken]
    | some true => [.excluded rel]
    | some false => [if name.endsWith w.extension then .found (w.root ++ rel) else .passed]

/-- The visits to the entries of a directory; `start` begins their paths. -/
def Walk.entries (w : Walk) (start : Bytes) : List (Name × Node) → List Visit
  | [] => []
  | (name, node) :: rest => w.node (start ++ name) name node ++ w.entries start rest

end

/-- The visits up to the first rule that cannot be applied. -/
def untilBroken : List Visit → List Visit
  | [] => []
  | .broken :: _ => [.broken]
  | v :: rest => v :: untilBroken rest

/-- All visits of a walk, the root first. -/
def Walk.visits (w : Walk) (root : Node) : List Visit :=
  match root with
  | .dir entries access =>
    if access = .none then [.passed, .unlisted ⟨.open, w.root, .denied⟩]
    else .passed :: untilBroken (w.entries [] entries)
  | _ => [.passed]

/-- The outcome of a discovery: the log, and the files found in ascending order. -/
structure Outcome where
  log : List Log.Record
  files : Except Error (List Bytes)

/-- The outcome of a walk that is called off when patience runs out. -/
def outcomeOf (patience : Patience) (visits : List Visit) : Outcome :=
  if patience.any (· < visits.length) then
    ⟨(visits.take (patience.getD 0)).flatMap Visit.log, .error .cancelled⟩
  else if visits.contains .broken then ⟨visits.flatMap Visit.log, .error .brokenRule⟩
  else ⟨visits.flatMap Visit.log, .ok (Bytes.sort (visits.filterMap Visit.file?))⟩

/-- Whether one of the patterns matches; they are asked in order. -/
def matchesAny (rel : Bytes) : List Glob.Matcher → Option Bool
  | [] => some false
  | m :: ms =>
    match m.accepts rel with
    | none => none
    | some true => some true
    | some false => matchesAny rel ms

def leavesOut (patterns : List Glob.Matcher) (ignore : Option Ignore.File) (root rel : Bytes)
    (isDir : Bool) : Option Bool :=
  match matchesAny rel patterns with
  | none => none
  | some true => some true
  | some false =>
    match ignore with
    | none => some false
    | some f => f.ignores (root ++ rel) isDir

/-- The patterns compiled, up to the first that cannot be. -/
def compileAll : List Bytes → Except Error (List Glob.Matcher)
  | [] => .ok []
  | p :: ps =>
    match Glob.compile p with
    | .error e => .error (.badPattern p e)
    | .ok m =>
      match compileAll ps with
      | .error e => .error e
      | .ok ms => .ok (m :: ms)

inductive Loaded where
  /-- There is none. -/
  | missing
  | rules (f : Ignore.File)
  | unreadable (e : SystemError)
  /-- Its rules cannot be used. -/
  | broken

def loadIgnoreFile (host : Host) (root file : Bytes) : Loaded :=
  if file.isEmpty then .missing
  else
    let path := if Path.isAbsolute file then file else Path.join root file
    match host.find path with
    | .error .notFound => .missing
    | _ =>
      let path := host.normalize path
      match host.read path with
      | .error e => .unreadable e
      | .ok content =>
        match Ignore.parse content with
        | none => .broken
        | some rules => .rules ⟨Path.parent path, rules⟩

def withSlash (root : Bytes) : Bytes :=
  if root.getLast? = some Bytes.slash then root else root ++ [Bytes.slash]

/-- The walk below a root that is a directory. -/
def discoverBelow (host : Host) (patience : Patience) (root : Bytes) (node : Node)
    (options : Options) (patterns : List Glob.Matcher) : Outcome :=
  let walk (ignore : Option Ignore.File) : Outcome :=
    let start := withSlash root
    outcomeOf patience
      (Walk.visits ⟨start, options.extension, leavesOut patterns ignore start⟩ node)
  match loadIgnoreFile host root options.ignoreFile with
  | .missing => walk none
  | .rules f => walk (some f)
  | .broken => ⟨[], .error .brokenRule⟩
  | .unreadable e =>
    let out := walk none
    { out with
      log := Log.warn "Failed to load ignore file, continuing without it"
        [("file", .text options.ignoreFile), ("error", .text e.message)] :: out.log }

/--
The files below a root, in normal form and ascending order. A root that is missing or no directory has
none.
-/
def discover (host : Host) (patience : Patience) (root : Bytes) (options : Options) : Outcome :=
  if options.extension.isEmpty then ⟨[], .error .noExtension⟩
  else
    match compileAll options.exclude with
    | .error e => ⟨[], .error e⟩
    | .ok patterns =>
      let root := host.normalize root
      let nothing (error : Log.Value) : Outcome :=
        ⟨[Log.warn "Library root is not a readable directory, nothing to analyze"
            [("root", .text root), ("error", error)]], .ok []⟩
      match host.stat root with
      | .error e => nothing (.text e.message)
      | .ok node =>
        if node.isDir then discoverBelow host patience root node options patterns
        else nothing .absent

end DartReach.Discovery
