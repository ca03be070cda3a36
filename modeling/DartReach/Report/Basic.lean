import DartReach.Reachability

/-!
# Results and reports

A result is what one analysis found out, with absolute paths. A report is its form for readers: counts and
lists of paths relative to the library root.
-/

namespace DartReach

set_option autoImplicit false

/-- A file that could not be read, and why. -/
structure Failure where
  path : Bytes
  message : Bytes
deriving DecidableEq, Repr

structure Result where
  libRoot : Bytes
  files : List Bytes
  graph : ImportGraph
  failures : List Failure
  /-- Total size of the files. -/
  bytes : Nat
  reach : Reachability
deriving DecidableEq, Repr

structure Report where
  total : Nat
  reachable : Nat
  unused : Nat
  /-- Entry points the search started from. -/
  entryPoints : List Bytes
  /-- Entry points that were not found. -/
  missingEntryPoints : List Bytes
  unusedFiles : List Bytes
  usedFiles : List Bytes
  failures : List Failure
deriving DecidableEq, Repr

/-- Paths as seen from a root, ascending. -/
def relativePaths (root : Bytes) (paths : List Bytes) : List Bytes :=
  Bytes.sort (paths.map (Path.relativeOrSame root))

def Result.report (res : Result) : Report where
  total := res.files.length
  reachable := res.reach.visited.length
  unused := res.reach.unused.length
  entryPoints := relativePaths res.libRoot res.reach.entries
  missingEntryPoints := relativePaths res.libRoot res.reach.missing
  unusedFiles := relativePaths res.libRoot res.reach.unused
  usedFiles := relativePaths res.libRoot res.reach.visited
  failures := res.failures.map (fun f => ⟨Path.relativeOrSame res.libRoot f.path, f.message⟩)

end DartReach
