import DartReach.Report.Basic
import DartReach.Report.Sink

/-!
# The text report

Three counts, then the unused and the used files under a heading each, one path a line, and a warning if
there was no entry point.
-/

namespace DartReach.Result

set_option autoImplicit false

def line (b : Bytes) : Bytes := b ++ [Bytes.newline]

/-- The warning of a search that had nowhere to start from. -/
def warningPieces (res : Result) : List Bytes :=
  if res.reach.noEntryPoints then
    [text "\n--- Warnings ---\n",
      text "No entry point found (looked for: " ++ Bytes.join (text ", ") res.report.missingEntryPoints
        ++ text "), all files are reported as unused\n"]
  else []

/-- The report in the pieces it is printed in. -/
def textPieces (res : Result) : List Bytes :=
  let rep := res.report
  [text "Total Dart files found: " ++ line (decimal rep.total),
    text "Reachable files: " ++ line (decimal rep.reachable),
    text "Unused files: " ++ line (decimal rep.unused) ++ [Bytes.newline],
    text "--- Unused Files ---\n"]
  ++ rep.unusedFiles.map line
  ++ [text "\n--- Used Files ---\n"]
  ++ rep.usedFiles.map line
  ++ res.warningPieces

/-- Prints the text report through a buffer. Only the last flush tells whether something was lost. -/
def printText (res : Result) (sink : Sink) : Sink × Except WriteError Unit :=
  let out := (res.textPieces.foldl Buffered.write (Buffered.start sink)).flush
  (out.sink, if out.failed then .error ⟨sink.refusal⟩ else .ok ())

end DartReach.Result
