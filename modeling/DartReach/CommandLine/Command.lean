import DartReach.CommandLine.Flag

/-!
# Commands

The commands of the program, the flags they know, and their help.
-/

namespace DartReach

set_option autoImplicit false

inductive Command where
  /-- Analyses a library; what is done without a command. -/
  | analyze
  /-- Writes a first settings file. -/
  | init
  /-- Says which version runs. -/
  | version
  /-- Describes a command. -/
  | help
deriving DecidableEq, Repr

namespace Command

def program : String := "deadfiles"

/-- The word that names a command; the analysis has none. -/
def word? : Command → Option String
  | .analyze => none
  | .init => some "init"
  | .version => some "version"
  | .help => some "help"

def path (c : Command) : String :=
  match c.word? with
  | none => program
  | some word => program ++ " " ++ word

def ofWord? (word : Bytes) : Option Command :=
  [Command.init, .version, .help].find? (fun c => c.word?.any (fun w => text w = word))

def summary : Command → String
  | .analyze => "Report Dart files unreachable from entry points"
  | .init => "Write starter .deadfiles.yaml into current directory"
  | .version => "Show version information"
  | .help => "Help about any command"

def overview : List String := [
    "The deadfiles command reports Dart files which are not reachable from any entry point of a package.",
    "",
    "\tUsage: deadfiles [flags] [path/to/lib]",
    "",
    "The deadfiles command walks the lib directory of a Dart or Flutter package, reads every .dart file",
    "and follows its import and part declarations, starting from the entry points (main.dart and",
    "generated_plugin_registrant.dart by default). Files never reached are reported as unused.",
    "Such files are candidates for removal, not a certainty.",
    "",
    "# How it works",
    "",
    " 1. Lists all .dart files under the lib root, hidden directories included",
    " 2. Extracts quoted targets of import and part declarations with a plain text scan",
    " 3. Resolves own package references (package:<name>/...) against the lib root and",
    "    other references against the directory of the importing file",
    " 4. Ignores dart: and other packages' references",
    " 5. Runs breadth-first search from the entry points and reports what was not visited",
    "",
    "# Example",
    "",
    "Analyze Flutter application in current directory:",
    "",
    "\t$ deadfiles lib",
    "",
    "Use different entry points and write JSON report:",
    "",
    "\t$ deadfiles -e main_dev.dart -e main_prod.dart --format json -o report.json lib",
    "",
    "# Configuration",
    "",
    "Settings are read from .deadfiles.yaml (current directory, then home directory),",
    "environment variables prefixed with DEADFILES_ (also loaded from .env file) and flags,",
    "flags having the highest priority. Run \"deadfiles init\" to write a starter config.",
    "",
    "When the package name is not configured, it is taken from pubspec.yaml next to the lib root.",
    "",
    "Files matching -exclude globs or listed in .deadfilesignore (gitignore syntax, inside the lib root)",
    "are left out from the analysis.",
    "",
    "# Output",
    "",
    "The text report is written into analysis_results.txt by default. It contains counts of all, reachable",
    "and unused files followed by sorted lists of unused and used files, relative to the lib root.",
    "The header line is fixed (\"Total Dart files found: N\"), also when -ext selects other files.",
    "When no entry point is found, all files are reported as unused and a warning section is appended.",
    "",
    "The -debug flag enables verbose debug output on stderr.",
    "",
    "# Limitations",
    "",
    "The analysis is a text heuristic, not a Dart parser:",
    "  - Conditional imports, exports and generated code are not understood",
    "  - Declarations in comments are followed too",
    "  - Reachability through reflection or dependency injection is invisible"]

def description : Command → List String
  | .analyze => overview
  | .help => [
    "Help provides help for any command in the application.",
    "Simply type deadfiles help [path to command] for full details."]
  | c => [c.summary]

def usage : Command → List String
  | .analyze => ["deadfiles [flags] [path/to/lib]", "deadfiles [command]"]
  | .help => ["deadfiles help [command] [flags]"]
  | c => [c.path ++ " [flags]"]

/-- Commands that help lists, with what they do. -/
def listing : List (String × String) := [
    ("completion", "Generate the autocompletion script for the specified shell"),
    ("help", Command.help.summary),
    ("init", Command.init.summary),
    ("version", Command.version.summary)]

/-- The flags of a command besides that for help, by name. -/
def flags : Command → List Flag
  | .analyze => [
    ⟨"builtin-prefix", none, .list,
      "prefix of built-in library references, repeatable (default: dart:)"⟩,
    ⟨"config", some 'c', .text, "path to config file (default: .deadfiles.yaml in . or $HOME)"⟩,
    ⟨"debug", none, .switch, "enable debug output"⟩,
    ⟨"entry", some 'e', .list, "entry point file relative to lib root, repeatable (default: "
      ++ "main.dart,generated_plugin_registrant.dart)"⟩,
    ⟨"exclude", none, .list, "glob of paths relative to lib root to leave out, repeatable"⟩,
    ⟨"ext", none, .text, "source file extension, the text report header still reads \"Dart files\" "
      ++ "(default: .dart)"⟩,
    ⟨"format", none, .text, "report format: text or json (default: text)"⟩,
    ⟨"ignore-file", none, .text, "gitignore-style file inside lib root (default: .deadfilesignore)"⟩,
    ⟨"lib-root", none, .text, "root directory of Dart sources (default: lib)"⟩,
    ⟨"output", some 'o', .text, "report file, - for stdout (default: analysis_results.txt)"⟩,
    ⟨"package", some 'p', .text,
      "package name used in package: imports (default: name from pubspec.yaml)"⟩]
  | .init => [
    ⟨"force", some 'f', .switch, "overwrite existing config file"⟩,
    ⟨"package", some 'p', .text, "package name (default: name from pubspec.yaml)"⟩]
  | .version => []
  | .help => []

def helpFlag (c : Command) : Flag :=
  ⟨Arguments.helpName, some 'h', .switch, "help for " ++ c.word?.getD program⟩

def allFlags (c : Command) : List Flag :=
  (c.helpFlag :: c.flags).mergeSort (fun f g => Bytes.le f.key g.key)

/-! ### Help -/

def valueWord : FlagKind → String
  | .switch => ""
  | .text => " string"
  | .list => " strings"

def flagColumn (f : Flag) : String :=
  (match f.letter? with
    | some c => "  -" ++ c.toString ++ ", --"
    | none => "      --")
  ++ f.name ++ valueWord f.kind

def padded (width : Nat) (s : String) : String := s ++ String.ofList (List.replicate (width - s.length) ' ')

def columns (gap : Nat) (rows : List (String × String)) : List String :=
  let width := (rows.map (·.1.length)).foldl max 0
  rows.map (fun row => padded (width + gap) row.1 ++ row.2)

def flagLines (c : Command) : List String :=
  "Flags:" :: columns 3 (c.allFlags.map fun f => (flagColumn f, f.summary))

def commandLines : List String :=
  "Available Commands:" :: columns 2 (listing.map fun row => ("  " ++ row.1, row.2)) ++ [""]

def helpLines (c : Command) : List String :=
  c.description ++ ["", "Usage:"] ++ c.usage.map ("  " ++ ·) ++ [""]
    ++ (if c = .analyze then commandLines else [])
    ++ c.flagLines
    ++ (if c = .analyze then
        ["", "Use \"deadfiles [command] --help\" for more information about a command."]
      else [])

def helpText (c : Command) : Bytes := c.helpLines.flatMap (fun line => text line ++ [Bytes.newline])

/-! ### Finding the command -/

/-- Whether a flag argument is followed by its value; a flag that is not known is. -/
def takesNext (flags : List Flag) (argument : Bytes) : Bool :=
  let isSwitch (f? : Option Flag) : Bool := f?.any (·.kind = .switch)
  if Arguments.equals ∈ argument then false
  else
    match Bytes.after? Arguments.terminator argument with
    | some name => !isSwitch (Flag.byName? flags name)
    | none =>
      match argument with
      | [b, letter] => b == Arguments.dash && !isSwitch (Flag.byLetter? flags letter)
      | _ => false

/--
The first argument that is neither a flag nor the value of one. A flag that takes a value ends the search
when fewer than two arguments are left.
-/
def firstWord? (flags : List Flag) : List Bytes → Option Bytes
  | [] => none
  | argument :: rest =>
    if argument = Arguments.terminator then none
    else if takesNext flags argument then
      match rest with
      | _ :: next :: more => firstWord? flags (next :: more)
      | _ => none
    else if argument.isEmpty ∨ argument.head? = some Arguments.dash then firstWord? flags rest
    else some argument
termination_by arguments => arguments.length

/-- The arguments without the first `word` that is neither a flag nor the value of one. -/
def withoutWord (flags : List Flag) (word : Bytes) : List Bytes → List Bytes
  | [] => []
  | argument :: rest =>
    if argument = Arguments.terminator then argument :: rest
    else if takesNext flags argument then
      match rest with
      | value :: more => argument :: value :: withoutWord flags word more
      | [] => [argument]
    else if argument = word then rest
    else argument :: withoutWord flags word rest
termination_by arguments => arguments.length

def select (arguments : List Bytes) : Command × List Bytes :=
  let flags := Command.analyze.flags
  match firstWord? flags arguments with
  | none => (.analyze, arguments)
  | some word =>
    match ofWord? word with
    | none => (.analyze, arguments)
    | some c => (c, withoutWord flags word arguments)

end Command

end DartReach
