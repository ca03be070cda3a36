import DartReach.Text.Printable
import DartReach.Text.Utf8

/-!
# Records of comma separated fields

A field may be quoted; it can then hold commas and line ends, and quotes written twice. Only the first
record of a text is read. Lines end with `\n` or `\r\n`, and empty lines before the record do not count. A
record is written without quotes as far as possible.
-/

namespace DartReach.Csv

set_option autoImplicit false

def comma : UInt8 := 0x2C

def mark : UInt8 := 0x22

/-- A place in a text; lines and columns count from one. -/
structure Position where
  line : Nat
  column : Nat
deriving DecidableEq, Repr

/-- Why a text has no record; `first` is the line its record starts in. -/
inductive Error where
  | nothing
  /-- A quote in a field that is not quoted. -/
  | bareQuote (first : Nat) (place : Position)
  /-- A quoted field that does not end, or that goes on after its end. -/
  | strayQuote (first : Nat) (place : Position)
deriving DecidableEq, Repr

def placeText (first : Nat) (place : Position) : Bytes :=
  (if first = place.line then [] else text "record on line " ++ decimal first ++ text "; ")
    ++ text "parse error on line " ++ decimal place.line ++ text ", column " ++ decimal place.column
    ++ text ": "

def Error.message : Error → Bytes
  | .nothing => text "EOF"
  | .bareQuote first place => placeText first place ++ text "bare \" in non-quoted-field"
  | .strayQuote first place => placeText first place ++ text "extraneous or missing \" in quoted-field"

/-- Where in a field the reader is. -/
inductive Mode where
  | start
  | plain
  | quoted
  /-- Behind a quote in a quoted field. -/
  | closing
deriving DecidableEq, Repr

structure Reading where
  /-- Complete fields, the last first. -/
  fields : List Bytes
  /-- Bytes of the current field, the last first. -/
  current : Bytes
  mode : Mode
  /-- The place of the next byte. -/
  place : Position
deriving DecidableEq, Repr

namespace Reading

def advance (r : Reading) : Reading := { r with place := { r.place with column := r.place.column + 1 } }

def nextLine (r : Reading) : Reading := { r with place := ⟨r.place.line + 1, 1⟩ }

def take (r : Reading) (b : UInt8) (mode : Mode) : Reading :=
  { r with current := b :: r.current, mode }

def closeField (r : Reading) : Reading :=
  { r with fields := r.current.reverse :: r.fields, current := [], mode := .start }

def record (r : Reading) : List Bytes := r.closeField.fields.reverse

end Reading

/-- Reads on to the end of the record that started in the line `first`. -/
def scan (first : Nat) : Reading → Bytes → Except Error (List Bytes)
  | r, [] => if r.mode = .quoted then .error (.strayQuote first r.place) else .ok r.record
  | r, b :: rest =>
    match r.mode with
    | .quoted =>
      if b = mark then scan first { r.advance with mode := .closing } rest
      else if b = Bytes.newline ∧ rest ≠ [] then scan first (r.take b .quoted).nextLine rest
      else scan first (r.take b .quoted).advance rest
    | .closing =>
      if b = mark then scan first (r.take b .quoted).advance rest
      else if b = comma then scan first r.closeField.advance rest
      else if b = Bytes.newline then .ok r.record
      else .error (.strayQuote first { r.place with column := r.place.column - 1 })
    | .start =>
      if b = mark then scan first { r.advance with mode := .quoted } rest
      else if b = comma then scan first r.closeField.advance rest
      else if b = Bytes.newline then .ok r.record
      else scan first (r.take b .plain).advance rest
    | .plain =>
      if b = mark then .error (.bareQuote first r.place)
      else if b = comma then scan first r.closeField.advance rest
      else if b = Bytes.newline then .ok r.record
      else scan first (r.take b .plain).advance rest

/-- The text with plain line ends; a `\r` at its end belongs to a line end that is missing. -/
def plainLines (s : Bytes) : Bytes :=
  let s := Bytes.unixLines s
  if s.getLast? = some 0x0D then s.dropLast else s

def record (s : Bytes) : Except Error (List Bytes) :=
  if s.isEmpty then .ok []
  else
    let lines := plainLines s
    let body := lines.dropWhile (· = Bytes.newline)
    let first := lines.length - body.length + 1
    if body.isEmpty then .error .nothing else scan first ⟨[], [], .start, ⟨first, 1⟩⟩ body

/-! ### Writing -/

def needsQuotes (field : Bytes) : Bool :=
  field = text "\\." || field.any (fun b => b = comma || b = mark || b = 0x0D || b = Bytes.newline)
    || (Utf8.decode field).head?.any isSpace

def doubled (field : Bytes) : Bytes := field.flatMap fun b => if b = mark then [mark, mark] else [b]

def written (field : Bytes) : Bytes :=
  if needsQuotes field then mark :: (doubled field ++ [mark]) else field

/-- The fields as one record, without a line end. -/
def render : List Bytes → Bytes
  | [] => []
  | [field] => written field
  | field :: rest => written field ++ comma :: render rest

def unbracketed (s : Bytes) : Bytes :=
  let s := (Bytes.after? (text "[") s).getD s
  if s.endsWith (text "]") then s.dropLast else s

end DartReach.Csv
