import DartReach.Text.Quoted

/-!
# Log lines

A log is a list of records; a record is one line of `key=value` pairs. Values are quoted only where they
would be ambiguous otherwise.
-/

namespace DartReach.Log

set_option autoImplicit false

inductive Level where
  | debug
  | info
  | warn
deriving DecidableEq, Repr

def Level.name : Level → String
  | .debug => "DEBUG"
  | .info => "INFO"
  | .warn => "WARN"

inductive Value where
  | text (s : Bytes)
  | number (n : Nat)
  | list (items : List Bytes)
  /-- There is nothing to say. -/
  | absent
  /-- The time the work took, known only when the line is printed. -/
  | elapsed
deriving DecidableEq, Repr

structure Record where
  level : Level
  message : String
  fields : List (String × Value)
deriving DecidableEq, Repr

/-- Whether a character makes a value ambiguous. -/
def isPlain (c : Char) : Bool :=
  if c.toNat < 0x80 then 0x20 < c.toNat && c != '=' && c != '"'
  else c != Utf8.replacement && !isSpace c && isPrintable c

/-- The value as it is, or quoted where it is empty or has a character that is not plain. -/
def quoteIfNeeded (s : Bytes) : Bytes :=
  if !s.isEmpty && (Utf8.decode s).all isPlain then s else Quoted.quote s

/-- A value in words; `elapsed` is the time the work took. -/
def Value.render (elapsed : Bytes) : Value → Bytes
  | .text s => quoteIfNeeded s
  | .number n => decimal n
  | .list items => quoteIfNeeded (DartReach.text "[" ++ Bytes.join [0x20] items ++ DartReach.text "]")
  | .absent => DartReach.text "<nil>"
  | .elapsed => elapsed

/-- The line of a record, without a line end. -/
def Record.line (elapsed : Bytes) (r : Record) : Bytes :=
  text "level=" ++ text r.level.name ++ text " msg=" ++ quoteIfNeeded (text r.message)
    ++ r.fields.flatMap (fun f => text " " ++ text f.1 ++ text "=" ++ f.2.render elapsed)

/-- The records a reader sees who did not ask for details. -/
def visible (debug : Bool) (records : List Record) : List Record :=
  if debug then records else records.filter (·.level ≠ .debug)

def debug (message : String) (fields : List (String × Value)) : Record := ⟨.debug, message, fields⟩

def info (message : String) (fields : List (String × Value)) : Record := ⟨.info, message, fields⟩

def warn (message : String) (fields : List (String × Value)) : Record := ⟨.warn, message, fields⟩

end DartReach.Log
