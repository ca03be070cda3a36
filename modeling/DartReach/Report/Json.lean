import DartReach.Report.Basic
import DartReach.Report.Sink
import DartReach.Text.Quoted

/-!
# The JSON report

An object with a field for every part of the report, indented by tabs. In strings the characters `<`, `>`,
`&`, U+2028 and U+2029 are escaped too, and a byte that is no character becomes U+FFFD.
-/

namespace DartReach

set_option autoImplicit false

/-- The JSON values a report is made of. -/
inductive JsonValue where
  | number (n : Nat)
  | string (s : Bytes)
  | array (items : List JsonValue)
  | object (fields : List (String × JsonValue))

namespace JsonValue

/-- How a character is written in a string. -/
def escape (c : Char) : List Char :=
  match c with
  | '"' => ['\\', '"']
  | '\\' => ['\\', '\\']
  | '\n' => ['\\', 'n']
  | '\r' => ['\\', 'r']
  | '\t' => ['\\', 't']
  | _ =>
    let n := c.toNat
    if n = 0x08 then ['\\', 'b']
    else if n = 0x0C then ['\\', 'f']
    else if n < 0x20 ∨ c = '<' ∨ c = '>' ∨ c = '&' ∨ n = 0x2028 ∨ n = 0x2029 then
      ['\\', 'u'] ++ Quoted.hex 4 n
    else [c]

def quote (s : Bytes) : Bytes := encode (['"'] ++ (Utf8.decode s).flatMap escape ++ ['"'])

def indent (depth : Nat) : Bytes := Bytes.newline :: List.replicate depth 0x09

mutual

/-- The text of a value at some depth. -/
def render (depth : Nat) : JsonValue → Bytes
  | .number n => decimal n
  | .string s => quote s
  | .array [] => text "[]"
  | .array (v :: vs) => text "[" ++ renderItems (depth + 1) (v :: vs) ++ indent depth ++ text "]"
  | .object [] => text "\x7b\x7d"
  | .object (f :: fs) =>
    text "\x7b" ++ renderFields (depth + 1) (f :: fs) ++ indent depth ++ text "\x7d"

/-- Values on lines of their own, commas between them. -/
def renderItems (depth : Nat) : List JsonValue → Bytes
  | [] => []
  | [v] => indent depth ++ v.render depth
  | v :: vs => indent depth ++ v.render depth ++ text "," ++ renderItems depth vs

/-- Fields on lines of their own, commas between them. -/
def renderFields (depth : Nat) : List (String × JsonValue) → Bytes
  | [] => []
  | [(k, v)] => indent depth ++ quote (text k) ++ text ": " ++ v.render depth
  | (k, v) :: fs =>
    indent depth ++ quote (text k) ++ text ": " ++ v.render depth ++ text ","
      ++ renderFields depth fs

end

def strings (items : List Bytes) : JsonValue := .array (items.map .string)

end JsonValue

def Report.toJson (rep : Report) : JsonValue :=
  .object [
    ("total", .number rep.total),
    ("reachable", .number rep.reachable),
    ("unused", .number rep.unused),
    ("entry_points", .strings rep.entryPoints),
    ("missing_entry_points", .strings rep.missingEntryPoints),
    ("unused_files", .strings rep.unusedFiles),
    ("used_files", .strings rep.usedFiles),
    ("failures", .array (rep.failures.map (fun f =>
      .object [("file", .string f.path), ("error", .string f.message)])))]

/-- Prints the JSON report in one write. -/
def Result.printJson (res : Result) (sink : Sink) : Sink × Except WriteError Unit :=
  let (sink', ok) := sink.write (res.report.toJson.render 0 ++ [Bytes.newline])
  (sink', if ok then .ok () else .error ⟨sink.refusal⟩)

end DartReach
