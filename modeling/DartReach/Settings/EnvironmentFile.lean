import DartReach.Host
import DartReach.Text.Printable
import DartReach.Text.Utf8

/-!
# Variables in a file

The file `.env` gives values to environment variables that have none: lines `NAME=value` or
`NAME: value`, with an optional `export` and comments from `#` on. Values in double quotes have escapes,
values in single quotes stand for themselves, and `$NAME` stands for a variable defined further up.
A file with anything else in it sets nothing.
-/

namespace DartReach.EnvironmentFile

set_option autoImplicit false

def fileName : Bytes := text ".env"

def hash : UInt8 := 0x23

def backslash : UInt8 := 0x5C

def dollar : UInt8 := 0x24

def isBlank (c : Char) : Bool := c ∈ ['\t', '\x0b', '\x0c', '\r', ' ', '\u0085', '\u00a0']

def trimStart (p : Char → Bool) (s : Bytes) : Bytes :=
  match h : Utf8.next? s with
  | none => []
  | some (u, rest) =>
    have := Utf8.next?_length h
    if p u.char then trimStart p rest else s
termination_by s.length

def trimEnd (p : Char → Bool) (s : Bytes) : Bytes :=
  let skipped := ((Utf8.symbols s).reverse.takeWhile (p ·.char)).foldl (· + ·.width) 0
  s.take (s.length - skipped)

/-! ### Values -/

/-- Bytes of names that a value can refer to. -/
def isReferenceByte (b : UInt8) : Bool :=
  (0x41 ≤ b && b ≤ 0x5A) || (0x30 ≤ b && b ≤ 0x39) || b == 0x5F

/-- A reference behind its `$`. -/
structure Reference where
  /-- The name; it can be missing. -/
  name : Bytes
  /-- How many bytes the reference takes. -/
  width : Nat
deriving DecidableEq, Repr

/-- The reference at the start of a text: a name, with an optional `(` and braces around it. -/
def Reference.at (s : Bytes) : Reference :=
  let opening := if s.head? = some 0x28 then 1 else 0
  let opening := opening + (if (s.drop opening).head? = some 0x7B then 1 else 0)
  let name := (s.drop opening).takeWhile isReferenceByte
  let width := opening + name.length
  ⟨name, width + (if (s.drop width).head? = some 0x7D then 1 else 0)⟩

/-- A value with its references replaced; a `\` before a `$` makes it stand for itself. -/
def expand (known : Environment) (s : Bytes) : Bytes :=
  match s with
  | [] => []
  | b :: rest =>
    if b = dollar then
      let r := Reference.at rest
      (if r.name.isEmpty then b :: rest.take r.width else (known.get? r.name).getD [])
        ++ expand known (rest.drop r.width)
    else if b = backslash ∧ rest.head? = some dollar then
      let width := (Reference.at (rest.drop 1)).width
      rest.take (width + 1) ++ expand known (rest.drop (width + 1))
    else b :: expand known rest
termination_by s.length
decreasing_by all_goals simp only [List.length_drop, List.length_cons]; omega

/-- Line ends written as escapes; other escapes stay as they are. -/
def unescapeLineEnds : Bytes → Bytes
  | [] => []
  | [b] => [b]
  | b :: c :: rest =>
    if b = backslash ∧ c ≠ Bytes.newline then
      (if c = 0x6E then [Bytes.newline] else if c = 0x72 then [0x0D] else [b, c]) ++ unescapeLineEnds rest
    else b :: unescapeLineEnds (c :: rest)

/-- Escapes of other bytes than `$`, which stand for the byte. -/
def unescapeBytes : Bytes → Bytes
  | [] => []
  | [b] => [b]
  | b :: c :: rest =>
    if b = backslash ∧ c ≠ dollar then c :: unescapeBytes rest else b :: unescapeBytes (c :: rest)

/-- The offset of the last `#` behind white space; `before` is the character in front of the text. -/
def comment? : (before : Char) → List Char → Option Nat
  | _, [] => none
  | before, c :: rest =>
    match comment? c rest with
    | some i => some (i + 1)
    | none => if c = '#' ∧ isBlank before then some 0 else none

def withoutComment (cs : List Char) : List Char :=
  match comment? '#' cs with
  | some i => cs.take i
  | none => cs

def isLineEnd (b : UInt8) : Bool := b == Bytes.newline || b == 0x0D

def plainValue (known : Environment) (line : Bytes) : Bytes :=
  let value := encode (withoutComment (Utf8.decode line))
  expand known (trimEnd isBlank (trimStart isBlank value))

/-- The offset of the quote that ends a value; a `\` before a quote makes it part of the value. -/
def closing? (quote : UInt8) : (before : UInt8) → Bytes → Option Nat
  | _, [] => none
  | before, b :: rest =>
    if b = quote ∧ before ≠ backslash then some 0 else (closing? quote b rest).map (· + 1)

/-- The value at the start of a text, and what follows it; `none` if its quote does not end. -/
def value? (known : Environment) (s : Bytes) : Option (Bytes × Bytes) :=
  match s with
  | [] => some ([], [])
  | q :: rest =>
    if q = 0x22 ∨ q = 0x27 then
      (closing? q q rest).map fun i =>
        let inner := Bytes.dropEndWhile (· == q) ((rest.take i).dropWhile (· == q))
        (if q = 0x22 then expand known (unescapeBytes (unescapeLineEnds inner)) else inner,
          rest.drop (i + 1))
    else
      let line := s.takeWhile (!isLineEnd ·)
      some (plainValue known line, s.drop line.length)

/-! ### Definitions -/

/-- Bytes of a name besides white space: letters and numbers of Latin-1, `_` and `.`. -/
def isNameByte (b : UInt8) : Bool :=
  (0x41 ≤ b && b ≤ 0x5A) || (0x61 ≤ b && b ≤ 0x7A) || (0x30 ≤ b && b ≤ 0x39)
    || b ∈ [0x5F, 0x2E, 0xAA, 0xB5, 0xBA, 0xB2, 0xB3, 0xB9, 0xBC, 0xBD, 0xBE]
    || (0xC0 ≤ b && b != 0xD7 && b != 0xF7)

/-- Whether a byte can stand in front of the sign that divides name and value. -/
def isNamePart (b : UInt8) : Bool := isNameByte b || isBlank (Char.ofNat b.toNat)

def isDivider (b : UInt8) : Bool := b == 0x3D || b == 0x3A

def withoutExport (s : Bytes) : Bytes :=
  let s := trimStart isBlank s
  match Bytes.after? (text "export") s with
  | some rest => if trimStart isBlank rest = rest then s else trimStart isBlank rest
  | none => s

/--
The name at the start of a definition, and what follows the dividing sign; `none` if there is no name.
Without a dividing sign the name is empty and everything is value.
-/
def name? (s : Bytes) : Option (Bytes × Bytes) :=
  let s := withoutExport s
  let name := s.takeWhile isNamePart
  match s, s.drop name.length with
  | [], _ => none
  | s, [] => some ([], trimStart isBlank s)
  | _, b :: rest => if isDivider b then some (trimEnd isSpace name, trimStart isBlank rest) else none

def nextDefinition (s : Bytes) : Bytes :=
  match trimStart isSpace s with
  | [] => []
  | b :: rest =>
    if b = hash then
      let below := rest.dropWhile (· ≠ Bytes.newline)
      if _h : below.length < s.length then nextDefinition below else []
    else b :: rest
termination_by s.length
decreasing_by assumption

/-- Reads definitions one after another; later ones of a name replace earlier ones. -/
def parseFrom (known : Environment) (s : Bytes) : Option Environment :=
  match nextDefinition s with
  | [] => some known
  | b :: more =>
    match name? (b :: more) with
    | none => none
    | some (name, rest) =>
      match value? known rest with
      | none => none
      | some (value, rest) =>
        if _h : rest.length < s.length then parseFrom (known.set name value) rest else none
termination_by s.length

/-- The variables a file defines; `none` if it is malformed. -/
def parse (content : Bytes) : Option Environment := parseFrom [] (Bytes.unixLines content)

/-- Whether a variable can have the name and the value. -/
def isSettable (name value : Bytes) : Bool :=
  !name.isEmpty && name.all (fun b => b != 0x3D && b != 0) && value.all (· != 0)

/-- The environment with what a file defines and the environment does not have. -/
def extend (env defined : Environment) : Environment :=
  defined.foldr (fun (name, value) env =>
    if (env.get? name).isNone && isSettable name value then env.set name value else env) env

end DartReach.EnvironmentFile

namespace DartReach

/-- Sets the variables that the file in the current directory defines; without one, nothing changes. -/
def Host.loadEnvironmentFile (host : Host) : Host :=
  match host.read EnvironmentFile.fileName with
  | .error _ => host
  | .ok content =>
    match EnvironmentFile.parse content with
    | none => host
    | some defined => { host with env := EnvironmentFile.extend host.env defined }

end DartReach
