import DartReach.Discovery
import DartReach.Report.Json
import DartReach.Report.PlainText
import DartReach.Summary

/-!
# The analysis of a library

Discovers the files of a library, resolves what they refer to, searches from the entry points and writes
the report. Files that cannot be read and missing entry points are only noted in the log; an analysis fails
if it was set up wrongly, was called off, or cannot write its report.
-/

namespace DartReach

set_option autoImplicit false

/-- A list that may be left open; it then counts as empty. -/
abbrev OptionalList := Option (List Bytes)

def OptionalList.items (l : OptionalList) : List Bytes := l.getD []

structure AnalysisOptions where
  /-- Where the search starts, relative to the library root. -/
  entryPoints : OptionalList
  extension : Bytes
  /-- References that start so are never resolved. -/
  builtinPrefixes : OptionalList
  /-- Glob patterns of what is left out. -/
  exclude : OptionalList
  ignoreFile : Bytes
  /-- The file of the report. -/
  output : Bytes
  /-- The name of the report's format. -/
  format : Bytes
  /-- Whether the log has details. -/
  debug : Bool
deriving DecidableEq, Repr

namespace AnalysisOptions

def textFormat : Bytes := text "text"

def jsonFormat : Bytes := text "json"

/-- The output that stands for the terminal. -/
def terminal : Bytes := text "-"

/-- The options of an analysis that says nothing else. -/
def standard : AnalysisOptions where
  entryPoints := some [text "main.dart", text "generated_plugin_registrant.dart"]
  extension := text ".dart"
  builtinPrefixes := some [text "dart:"]
  exclude := none
  ignoreFile := text ".deadfilesignore"
  output := text "analysis_results.txt"
  format := textFormat
  debug := false

end AnalysisOptions

inductive AnalysisError where
  | noLibRoot
  | noPackage
  | unknownFormat (format : Bytes)
  | noOutput
  | discovery (e : Discovery.Error)
  | create (e : SystemError)
  | write (e : WriteError)
  | close (e : SystemError)
deriving DecidableEq, Repr

def AnalysisError.message : AnalysisError → Bytes
  | .noLibRoot => text "no library root provided"
  | .noPackage => text "no package name provided"
  | .unknownFormat format => text "unknown report format: " ++ format
  | .noOutput => text "no output provided"
  | .discovery e => text "failed to discover files: " ++ e.message
  | .create e => text "failed to create report file: " ++ e.message
  | .write e => e.message
  | .close e => text "failed to write report file: " ++ e.message

structure Analysis where
  libRoot : Bytes
  /-- The package the library belongs to. -/
  packageName : Bytes
  options : AnalysisOptions
deriving DecidableEq, Repr

structure AnalysisOutcome where
  host : Host
  /-- What was printed. -/
  stdout : Bytes
  log : List Log.Record
  result : Except AnalysisError Result

/-- Whether colours are on: they are wanted, and the environment does not forbid them. -/
def Host.colored (host : Host) (wanted : Bool) : Bool :=
  wanted && ((host.env.get? (text "NO_COLOR")).getD []).isEmpty

namespace Analysis

def fault? (a : Analysis) : Option AnalysisError :=
  if a.libRoot.isEmpty then some .noLibRoot
  else if a.packageName.isEmpty then some .noPackage
  else if a.options.format ≠ AnalysisOptions.textFormat
      ∧ a.options.format ≠ AnalysisOptions.jsonFormat then
    some (.unknownFormat a.options.format)
  else if a.options.output.isEmpty then some .noOutput
  else none

/-- The paths of the entry points; relative names count from the library root. -/
def entryPaths (root : Bytes) (names : List Bytes) : List Bytes :=
  names.map (fun n => if Path.isAbsolute n then Path.clean n else Path.join root n)

def printReport (format : Bytes) (res : Result) (sink : Sink) : Sink × Except WriteError Unit :=
  if format = AnalysisOptions.jsonFormat then res.printJson sink else res.printText sink

def sinkOf (path : Bytes) (m : Medium) : Sink :=
  match m.limit? with
  | none => .unlimited
  | some (room, cause) => ⟨[], some room, .system ⟨.write, path, cause⟩⟩

/-- Writes the report to a file. The file keeps what was stored, whether or not it could be closed. -/
def saveReport (host : Host) (options : AnalysisOptions) (res : Result) :
    Host × Except AnalysisError Unit :=
  match host.create options.output with
  | .error e => (host, .error (.create e))
  | .ok (slot, opened) =>
    let medium := opened.medium slot
    let (sink, printed) := printReport options.format res (sinkOf options.output medium)
    ({ opened with files := opened.files.store slot sink.written },
      match printed, medium.closing? with
      | .error e, _ => .error (.write e)
      | .ok (), some cause => .error (.close ⟨.close, options.output, cause⟩)
      | .ok (), none => .ok ())

def figures (output : Bytes) (res : Result) : Summary.Figures where
  files := res.files.length
  visited := res.reach.visited.length
  unused := res.reach.unused.length
  failures := res.failures.length
  hasEntries := !res.reach.noEntryPoints
  bytes := res.bytes
  output := output

/-- What the terminal shows of an analysis; nothing if the report itself goes there. -/
def summary (host : Host) (color : Bool) (f : Summary.Figures) : Bytes :=
  if f.output = AnalysisOptions.terminal then [] else Summary.render (host.colored color) f

def entryRecord (res : Result) : Log.Record :=
  if res.reach.noEntryPoints then
    Log.warn "No entry point found, every file is reported as unused"
      [("entry_points", .list (relativePaths res.libRoot res.reach.missing))]
  else
    Log.info "Entry points detected"
      [("entry_points", .list (relativePaths res.libRoot res.reach.entries))]

/-- The result for some discovered files, and the log of the files that were read. -/
def resultOf (host : Host) (a : Analysis) (root : Bytes) (files : List Bytes) :
    Result × List Log.Record :=
  let resolver := Resolver.ofRoot host root a.packageName a.options.builtinPrefixes.items
  let g := resolver.buildGraph host files
  ({ libRoot := root
     files := files
     graph := g.graph
     failures := g.failures.map (fun f => ⟨f.path, (f.error?.map SourceError.message).getD []⟩)
     bytes := (files.map host.fileSize).foldr (· + ·) 0
     reach := Reachability.traverse files g.graph (entryPaths root a.options.entryPoints.items) },
   g.log)

/-- Delivers a result: to the terminal alone, or to a file with a summary on the terminal. -/
def deliver (host : Host) (terminal : Terminal) (options : AnalysisOptions) (res : Result) :
    Host × Bytes × Except AnalysisError Unit :=
  if options.output = AnalysisOptions.terminal then
    match printReport options.format res terminal.sink with
    | (sink, .ok ()) => (host, sink.written, .ok ())
    | (sink, .error e) => (host, sink.written, .error (.write e))
  else
    match saveReport host options res with
    | (host, .error e) => (host, [], .error e)
    | (host, .ok ()) =>
      (host, terminal.shows (summary host terminal.color (figures options.output res)), .ok ())

def analyse (host : Host) (patience : Discovery.Patience) (terminal : Terminal) (a : Analysis) :
    AnalysisOutcome :=
  let root := host.normalize a.libRoot
  let found := Discovery.discover host patience root
    ⟨a.options.extension, a.options.exclude.items, a.options.ignoreFile⟩
  let log₁ := Log.debug "Start scanning library root"
    [("root", .text root), ("package", .text a.packageName)] :: found.log
  match found.files with
  | .error e => ⟨host, [], log₁, .error (.discovery e)⟩
  | .ok files =>
    let (res, read) := a.resultOf host root files
    let log₂ := log₁
      ++ [Log.info "Total files found"
          [("extension", .text a.options.extension), ("count", .number files.length)]]
      ++ read ++ [entryRecord res]
    match deliver host terminal a.options res with
    | (host, stdout, .error e) => ⟨host, stdout, log₂, .error e⟩
    | (host, stdout, .ok ()) =>
      ⟨host, stdout,
        log₂ ++ [Log.info "Analysis complete"
          [("output", .text a.options.output), ("elapsed", .elapsed)]],
        .ok res⟩

/-- Runs an analysis; details are left out of the log unless they are wanted. -/
def run (host : Host) (patience : Discovery.Patience) (terminal : Terminal) (a : Analysis) :
    AnalysisOutcome :=
  match a.fault? with
  | some e => ⟨host, [], [], .error e⟩
  | none =>
    let out := a.analyse host patience terminal
    { out with log := Log.visible a.options.debug out.log }

end Analysis

end DartReach
