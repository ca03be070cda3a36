import DartReach.Log
import DartReach.Source.Reference

/-!
# The import graph

Every file with the files it refers to. Edges may lead to files that were not discovered; a search
ignores them. A file that cannot be read keeps its place, without edges.
-/

namespace DartReach

set_option autoImplicit false

abbrev ImportGraph := List (Bytes × List Bytes)

namespace ImportGraph

/-- The graph with the row of a file replaced, or added at the end. -/
def put (file : Bytes) (targets : List Bytes) : ImportGraph → ImportGraph
  | [] => [(file, targets)]
  | (f, ts) :: rest => if f = file then (file, targets) :: rest else (f, ts) :: put file targets rest

/-- What a file refers to; a file without a row refers to nothing. -/
def targets (g : ImportGraph) (file : Bytes) : List Bytes := (List.lookup file g).getD []

def logOf (file : FileImports) : List Log.Record :=
  (match file.error? with
    | some e => [Log.warn "Error reading file"
        [("file", .text file.path), ("error", .text e.message)]]
    | none => [])
  ++ [Log.debug "Resolved file"
      [("file", .text file.path), ("imports", .number file.imports.length)]]

def ofFiles (files : List FileImports) : ImportGraph :=
  files.foldl (fun g f => g.put f.path f.imports) []

end ImportGraph

/-- The graph of some files, with those that could not be read and the log. -/
structure GraphResult where
  graph : ImportGraph
  failures : List FileImports
  log : List Log.Record

/-- Resolves every file, in order. -/
def Resolver.buildGraph (host : Host) (r : Resolver) (paths : List Bytes) : GraphResult :=
  let files := paths.map (r.resolveFile host)
  { graph := ImportGraph.ofFiles files
    failures := files.filter (·.error?.isSome)
    log := files.flatMap ImportGraph.logOf }

end DartReach
