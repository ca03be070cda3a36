import DartReach.ImportGraph

/-!
# Reachability

A breadth-first search from the entry points, restricted to the known files. A file is marked when it is
put into the queue, so that none is queued twice; the search takes at most one round a known file.
-/

namespace DartReach

set_option autoImplicit false

/-- Where a search stands. -/
structure Search where
  /-- Files that were reached, the latest first. -/
  marked : List Bytes
  /-- Reached files whose targets were not looked at yet. -/
  queue : List Bytes
deriving DecidableEq, Repr

namespace Search

def start : Search := ⟨[], []⟩

/-- Reaches a file, unless it is unknown or was reached before. -/
def reach (known : List Bytes) (s : Search) (file : Bytes) : Search :=
  if known.contains file && !s.marked.contains file then
    ⟨file :: s.marked, s.queue ++ [file]⟩
  else s

/-- Takes one file from the queue and reaches its targets. -/
def step (known : List Bytes) (g : ImportGraph) (s : Search) : Search :=
  match s.queue with
  | [] => s
  | file :: rest => (g.targets file).foldl (reach known) ⟨s.marked, rest⟩

def rounds (known : List Bytes) (g : ImportGraph) : Nat → Search → Search
  | 0, s => s
  | n + 1, s => rounds known g n (step known g s)

end Search

/-- The known files divided into reached and unused ones. -/
structure Reachability where
  /-- Entry points among the known files, each once, in the order given. -/
  entries : List Bytes
  /-- Entry points that are no known files, each once, in the order given. -/
  missing : List Bytes
  /-- Files that can be reached from the entries, ascending. -/
  visited : List Bytes
  /-- The other known files, ascending. -/
  unused : List Bytes
deriving DecidableEq, Repr

namespace Reachability

/-- Whether a search had nowhere to start from, so that every file is unused. -/
def noEntryPoints (r : Reachability) : Bool := r.entries.isEmpty

structure Seed where
  search : Search
  entries : List Bytes
  missing : List Bytes

/-- Looks at one entry point. -/
def Seed.add (known : List Bytes) (s : Seed) (entry : Bytes) : Seed :=
  if known.contains entry then
    if s.search.marked.contains entry then s
    else { s with search := s.search.reach known entry, entries := s.entries ++ [entry] }
  else if s.missing.contains entry then s
  else { s with missing := s.missing ++ [entry] }

def Seed.of (known entryPoints : List Bytes) : Seed :=
  entryPoints.foldl (Seed.add known) ⟨Search.start, [], []⟩

/-- The search among `files` from `entryPoints` along the edges of `g`. -/
def traverse (files : List Bytes) (g : ImportGraph) (entryPoints : List Bytes) : Reachability :=
  let known := Bytes.sortUnique files
  let seed := Seed.of known entryPoints
  let done := Search.rounds known g known.length seed.search
  { entries := seed.entries
    missing := seed.missing
    visited := Bytes.sort done.marked
    unused := known.filter (!done.marked.contains ·) }

end Reachability

end DartReach
