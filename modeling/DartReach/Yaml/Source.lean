import DartReach.Text.Bytes

/-!
# The characters of a document

A document is a text in UTF-8, or in UTF-16 if it starts with a byte order mark of that encoding. It has no
control characters. Bytes are decoded in blocks, so what cannot be decoded is noticed when a character of its
block is asked for: the characters of a source end before that block.
-/

namespace DartReach.Yaml

set_option autoImplicit false

/-- Why bytes are no characters of a document. -/
inductive SourceError where
  | leadingOctet
  | incompleteOctets
  | trailingOctet
  | sequenceLength
  | noCharacter
  | incompleteUnit
  | unexpectedLowSurrogate
  | incompletePair
  | missingLowSurrogate
  | control
deriving DecidableEq, Repr

def SourceError.message : SourceError → String
  | .leadingOctet => "invalid leading UTF-8 octet"
  | .incompleteOctets => "incomplete UTF-8 octet sequence"
  | .trailingOctet => "invalid trailing UTF-8 octet"
  | .sequenceLength => "invalid length of a UTF-8 sequence"
  | .noCharacter => "invalid Unicode character"
  | .incompleteUnit => "incomplete UTF-16 character"
  | .unexpectedLowSurrogate => "unexpected low surrogate area"
  | .incompletePair => "incomplete UTF-16 surrogate pair"
  | .missingLowSurrogate => "expected low surrogate area"
  | .control => "control characters are not allowed"

/-- The text of a document, up to its end or to the first block that cannot be decoded. -/
structure Source where
  chars : List Char
  /-- What happens behind the characters; `none` at the end of the document. -/
  fault : Option SourceError
deriving DecidableEq, Repr

inductive Encoding where
  | utf8
  | utf16 (bigEndian : Bool)
deriving DecidableEq, Repr

def isAllowed (c : Char) : Bool :=
  let n := c.toNat
  n = 0x09 || n = 0x0A || n = 0x0D || (0x20 ≤ n && n ≤ 0x7E) || n = 0x85
    || (0xA0 ≤ n && n ≤ 0xD7FF) || (0xE000 ≤ n && n ≤ 0xFFFD) || 0x10000 ≤ n

/-- A character and the number of its bytes, or an error and the number of bytes that show it. -/
abbrev Step := Except (SourceError × Nat) (Char × Nat)

/-- The step to the character of a code point. -/
def stepOf (value width : Nat) : Step :=
  if h : value.isValidChar then
    let c : Char := ⟨UInt32.ofNat value, by
      have hlt : value < 2 ^ 32 := by rcases h with h | h <;> omega
      simpa [UInt32.isValidChar, UInt32.toNat_ofNat_of_lt' hlt] using h⟩
    if isAllowed c then .ok (c, width) else .error (.control, width)
  else .error (.noCharacter, width)

/-- Number of bytes of a UTF-8 sequence, told by its first; zero if none starts so. -/
def sequenceWidth (b : UInt8) : Nat :=
  if b < 0x80 then 1
  else if b < 0xC0 then 0
  else if b < 0xE0 then 2
  else if b < 0xF0 then 3
  else if b < 0xF8 then 4
  else 0

def isTrailing (b : UInt8) : Bool := 0x80 ≤ b && b < 0xC0

/-- The least code point that needs a number of bytes. -/
def leastOfWidth : Nat → Nat
  | 2 => 0x80
  | 3 => 0x800
  | 4 => 0x10000
  | _ => 0

def leadingBits (b : UInt8) : Nat → Nat
  | 1 => b.toNat
  | 2 => b.toNat - 0xC0
  | 3 => b.toNat - 0xE0
  | _ => b.toNat - 0xF0

def utf8Step (b : UInt8) (rest : Bytes) : Step :=
  let width := sequenceWidth b
  let tail := rest.take (width - 1)
  if width = 0 then .error (.leadingOctet, 1)
  else if tail.length < width - 1 then .error (.incompleteOctets, 0)
  else if !tail.all isTrailing then .error (.trailingOctet, width)
  else
    let value := tail.foldl (fun v t => v * 64 + (t.toNat - 0x80)) (leadingBits b width)
    if value < leastOfWidth width then .error (.sequenceLength, width) else stepOf value width

def unitOf (bigEndian : Bool) (a b : UInt8) : Nat :=
  if bigEndian then a.toNat * 256 + b.toNat else b.toNat * 256 + a.toNat

def utf16Step (bigEndian : Bool) (a : UInt8) : Bytes → Step
  | [] => .error (.incompleteUnit, 0)
  | b :: rest =>
    let unit := unitOf bigEndian a b
    if 0xDC00 ≤ unit && unit < 0xE000 then .error (.unexpectedLowSurrogate, 2)
    else if 0xD800 ≤ unit && unit < 0xDC00 then
      match rest with
      | c :: d :: _ =>
        let low := unitOf bigEndian c d
        if 0xDC00 ≤ low && low < 0xE000 then
          stepOf (0x10000 + (unit - 0xD800) * 0x400 + (low - 0xDC00)) 4
        else .error (.missingLowSurrogate, 4)
      | _ => .error (.incompletePair, 0)
    else stepOf unit 2

def Encoding.step (e : Encoding) (b : UInt8) (rest : Bytes) : Step :=
  match e with
  | .utf8 => utf8Step b rest
  | .utf16 bigEndian => utf16Step bigEndian b rest

def blockSize : Nat := 512

structure Decoding where
  /-- Characters so far, the last first. -/
  chars : List Char
  /-- Characters of the blocks before the current one, the last first. -/
  earlier : List Char
  /-- Bytes of the current block that were decoded. -/
  used : Nat

/-- Goes past a number of bytes; what does not fit into the block belongs to the next one. -/
def Decoding.pass (d : Decoding) (width : Nat) : Decoding :=
  if d.used + width ≤ blockSize then { d with used := d.used + width }
  else { d with earlier := d.chars, used := width }

/-- Decodes bytes; `n` is at least their number. -/
def decodeFrom (e : Encoding) : Nat → Decoding → Bytes → Source
  | _, d, [] => ⟨d.chars.reverse, none⟩
  | 0, d, _ => ⟨d.chars.reverse, none⟩
  | n + 1, d, b :: rest =>
    match e.step b rest with
    | .ok (c, width) =>
      let d := d.pass width
      decodeFrom e n { d with chars := c :: d.chars } (rest.drop (width - 1))
    | .error (err, 0) => ⟨d.chars.reverse, some err⟩
    | .error (err, width) => ⟨(d.pass width).earlier.reverse, some err⟩

/-- The encoding of a document and the length of its byte order mark. -/
def encodingOf : Bytes → Encoding × Nat
  | 0xEF :: 0xBB :: 0xBF :: _ => (.utf8, 3)
  | 0xFF :: 0xFE :: _ => (.utf16 false, 2)
  | 0xFE :: 0xFF :: _ => (.utf16 true, 2)
  | _ => (.utf8, 0)

/-- The characters of a document; an empty one is read as an empty line. -/
def Source.ofBytes (bytes : Bytes) : Source :=
  if bytes.isEmpty then ⟨['\n'], none⟩
  else
    let (e, mark) := encodingOf bytes
    decodeFrom e bytes.length ⟨[], [], mark⟩ (bytes.drop mark)

end DartReach.Yaml
