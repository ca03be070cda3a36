import DartReach.Text.Utf8
import DartReach.Yaml.Cursor
import DartReach.Yaml.Token

/-!
# Anchors, tags and directives in a document
-/

namespace DartReach.Yaml.Tag

set_option autoImplicit false

/-- Reads the name of an anchor or an alias; the cursor is at its sign. -/
def anchorName (c : Cursor) : Except Error (List Char × Cursor) := do
  let began := c.mark
  let c := c.skip 1
  c.ensure 1
  let (name, c) ← c.takeRun isNameChar
  if name.isEmpty || !(endsWord c.head || "?:,]\x7d%@`".toList.contains c.head) then
    c.fail began .badAnchor
  else .ok (name, c)

/-- Characters of a tag that stand for themselves. -/
def isTagChar (c : Char) : Bool := isNameChar c || ";/?:@&=+$,.!~*'()[]".toList.contains c

def octetWidth (n : Nat) : Nat := sequenceWidth (UInt8.ofNat n)

/-- The byte of a percent sign and two hexadecimal digits. -/
def octet? (c : Cursor) : Option Nat :=
  if c.head = '%' then
    match hexValue? (c.peek 1), hexValue? (c.peek 2) with
    | some a, some b => some (a * 16 + b)
    | _, _ => none
  else none

/-- Reads the bytes of an escaped character behind the first. -/
def moreOctets (began : Mark) : Nat → Cursor → (rev : Bytes) → Except Error (Bytes × Cursor)
  | 0, c, rev => .ok (rev, c)
  | n + 1, c, rev => do
    c.ensure 3
    match octet? c with
    | none => c.fail began .noOctet
    | some b =>
      if 0x80 ≤ b && b < 0xC0 then moreOctets began n (c.skip 3) (UInt8.ofNat b :: rev)
      else c.fail began .badTrailingOctet

def escaped (began : Mark) (c : Cursor) (rev : Bytes) : Except Error (Bytes × Cursor) := do
  c.ensure 3
  match octet? c with
  | none => c.fail began .noOctet
  | some b =>
    match octetWidth b with
    | 0 => c.fail began .badLeadingOctet
    | width + 1 => moreOctets began width (c.skip 3) (UInt8.ofNat b :: rev)

/-- Reads the characters of a tag; the result is their bytes, the last first. -/
def suffixFrom (began : Mark) : Nat → Cursor → (rev : Bytes) → Except Error (Bytes × Cursor)
  | 0, c, rev => .ok (rev, c)
  | n + 1, c, rev => do
    c.ensure 1
    if c.head = '%' then
      let (rev, c) ← escaped began c rev
      suffixFrom began n c rev
    else if isTagChar c.head then
      suffixFrom began n (c.skip 1) ((encode [c.head]).reverse ++ rev)
    else .ok (rev, c)

/-- Reads the rest of a tag behind what was read of it; there must be some tag in all. -/
def suffix (began : Mark) (head : List Char) (c : Cursor) : Except Error (List Char × Cursor) := do
  let (rev, c') ← suffixFrom began (c.rest.length + 1) c []
  if rev.isEmpty && head.isEmpty then c'.fail began .noTagSuffix
  else .ok (head.drop 1 ++ Utf8.decode rev.reverse, c')

/-- Reads a handle, or the start of a tag that has none. -/
def handle (directive : Bool) (began : Mark) (c : Cursor) : Except Error (List Char × Cursor) := do
  c.ensure 1
  if c.head ≠ '!' then c.fail began .noTagHandle
  else
    let c := c.skip 1
    c.ensure 1
    let (name, c) ← c.takeRun isNameChar
    if c.head = '!' then .ok ('!' :: name ++ ['!'], c.skip 1)
    else if directive && !name.isEmpty then c.fail began .noTagHandle
    else .ok ('!' :: name, c)

def parts (c : Cursor) : Except Error (List Char × List Char × Cursor) := do
  let began := c.mark
  c.ensure 2
  if c.peek 1 = '<' then
    let (s, c) ← suffix began [] (c.skip 2)
    if c.head = '>' then .ok ([], s, c.skip 1) else c.fail began .noTagClose
  else
    let (h, c) ← handle false began c
    if h.length > 1 && h.getLast? = some '!' then
      let (s, c) ← suffix began [] c
      .ok (h, s, c)
    else
      let (s, c) ← suffix began h c
      if s.isEmpty then .ok ([], ['!'], c) else .ok (['!'], s, c)

def read (c : Cursor) : Except Error (List Char × List Char × Cursor) := do
  let (h, s, c') ← parts c
  c'.ensure 1
  if endsWord c'.head then .ok (h, s, c') else c'.fail c.mark .noBlankOrBreak

def versionNumber (began : Mark) (c : Cursor) : Except Error (Nat × Cursor) := do
  c.ensure 1
  let (digits, c') ← c.takeRun Char.isDigit
  if 2 < digits.length then c'.fail began .longVersion
  else if digits.isEmpty then c'.fail began .noVersion
  else .ok (digits.foldl (fun n d => n * 10 + (d.toNat - 0x30)) 0, c')

def version (began : Mark) (c : Cursor) : Except Error (Token.Kind × Cursor) := do
  let c ← c.skipRun isBlank
  let (major, c) ← versionNumber began c
  if c.head ≠ '.' then c.fail began .noVersionDot
  else
    let (minor, c) ← versionNumber began (c.skip 1)
    .ok (.version major minor, c)

def handleDefinition (began : Mark) (c : Cursor) : Except Error (Token.Kind × Cursor) := do
  let c ← c.skipRun isBlank
  let (h, c) ← handle true began c
  c.ensure 1
  if !isBlank c.head then c.fail began .noBlank
  else
    let c ← c.skipRun isBlank
    let (s, c) ← suffix began [] c
    c.ensure 1
    if endsWord c.head then .ok (.tagHandle h s, c) else c.fail began .noBlankOrBreak

/-- Reads a directive to the end of its line; the cursor is at the percent sign. -/
def directive (c : Cursor) : Except Error (Token.Kind × Cursor) := do
  let began := c.mark
  let c := c.skip 1
  c.ensure 1
  let (name, c) ← c.takeRun isNameChar
  if name.isEmpty then c.fail began .noDirectiveName
  else if !endsWord c.head then c.fail began .badDirectiveName
  else
    let (kind, c) ←
      if name = "YAML".toList then version began c
      else if name = "TAG".toList then handleDefinition began c
      else c.fail began .unknownDirective
    let c ← c.skipRun isBlank
    let c ← if c.head = '#' then c.skipComment else .ok c
    if endsLine c.head then
      c.ensure 2
      .ok (kind, c.skipBreak)
    else c.fail began .noLineEnd

end DartReach.Yaml.Tag
