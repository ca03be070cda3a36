import DartReach.Yaml.Cursor
import DartReach.Yaml.Token

/-!
# Scalars in a document

A scalar is written plain, in single or double quotes, or as a block of lines. Plain and quoted scalars
may go on over several lines: a single line break reads as a space, of several the first is dropped.
-/

namespace DartReach.Yaml.Scalar

set_option autoImplicit false

/-- What stands between two words of a scalar. -/
inductive Gap where
  | blanks (cs : List Char)
  /-- The first line break, empty if it was escaped, and the others. -/
  | lines (first more : List Char)
deriving DecidableEq, Repr

def Gap.content : Gap → List Char
  | .blanks cs => cs
  | .lines first more =>
    if first = ['\n'] then (if more.isEmpty then [' '] else more) else first ++ more

def Gap.hasBreak : Gap → Bool
  | .blanks _ => false
  | .lines _ _ => true

/--
The line breaks of a gap behind the first; blanks at the start of a line are dropped. There must be no tab
before column `floor`.
-/
def moreBreaks (floor : Nat) (began : Mark) :
    Nat → Cursor → List Char → Except Error (List Char × Cursor)
  | 0, c, rev => .ok (rev.reverse, c)
  | n + 1, c, rev => do
    let run := c.rest.takeWhile isBlank
    if (run.take (floor - c.mark.column)).contains '\t' then c.fail began .tabInScalar
    else
      let c := c.past run
      c.ensure 1
      if isBreak c.head then
        c.ensure 2
        let (br, c) := c.takeBreak
        moreBreaks floor began n c (br.reverse ++ rev)
      else .ok (rev.reverse, c)

def gap (floor : Nat) (began : Mark) (c : Cursor) : Except Error (Gap × Cursor) := do
  let (run, c) ← c.takeRun isBlank
  if isBreak c.head then
    c.ensure 2
    let (br, c) := c.takeBreak
    let (more, c) ← moreBreaks floor began (c.rest.length + 1) c []
    .ok (.lines br more, c)
  else .ok (.blanks run, c)

/-- Characters that end a plain scalar inside brackets. -/
def endsFlowWord (c : Char) : Bool :=
  c = ',' || c = '?' || c = '[' || c = ']' || c = '\x7b' || c = '\x7d'

def plainWord (inFlow : Bool) : List Char → List Char
  | [] => []
  | ch :: rest =>
    if endsWord ch || (ch = ':' && endsWord (rest.headD nul)) || (inFlow && endsFlowWord ch) then []
    else ch :: plainWord inFlow rest

/--
Reads a plain scalar on from a gap. The result is its content, last character first, and whether it ended
on a line before the cursor.
-/
def plainFrom (inFlow : Bool) (floor : Nat) (began : Mark) :
    Nat → Cursor → (rev : List Char) → Gap → Except Error (List Char × Bool × Cursor)
  | 0, c, rev, _ => .ok (rev, false, c)
  | n + 1, c, rev, g => do
    c.ensure 4
    if c.atBoundary || c.head = '#' then .ok (rev, g.hasBreak, c)
    else
      let word := plainWord inFlow c.rest
      if word.isEmpty then .ok (rev, g.hasBreak, c)
      else
        let rev := word.reverse ++ (g.content.reverse ++ rev)
        let c := c.past word
        c.ensure 2
        let (g, c) ← gap floor began c
        if !inFlow && g.hasBreak && c.mark.column < floor then .ok (rev, true, c)
        else plainFrom inFlow floor began n c rev g

/-- Reads a plain scalar; tells whether it ended on a line before the cursor. -/
def plain (inFlow : Bool) (floor : Nat) (c : Cursor) : Except Error (List Char × Bool × Cursor) := do
  let (rev, newLine, c) ← plainFrom inFlow floor c.mark (c.rest.length + 1) c [] (.blanks [])
  .ok (rev.reverse, newLine, c)

inductive Escape where
  | char (c : Char)
  /-- A code point of so many hexadecimal digits. -/
  | code (digits : Nat)

def escape? (c : Char) : Option Escape :=
  match c with
  | '0' => some (.char '\x00')
  | 'a' => some (.char '\x07')
  | 'b' => some (.char '\x08')
  | 't' => some (.char '\t')
  | '\t' => some (.char '\t')
  | 'n' => some (.char '\n')
  | 'v' => some (.char '\x0b')
  | 'f' => some (.char '\x0c')
  | 'r' => some (.char '\r')
  | 'e' => some (.char '\x1b')
  | ' ' => some (.char ' ')
  | '"' => some (.char '"')
  | '\'' => some (.char '\'')
  | '\\' => some (.char '\\')
  | 'N' => some (.char '\u0085')
  | '_' => some (.char '\u00a0')
  | 'L' => some (.char '\u2028')
  | 'P' => some (.char '\u2029')
  | 'x' => some (.code 2)
  | 'u' => some (.code 4)
  | 'U' => some (.code 8)
  | _ => none

def hexNumber? : List Char → Nat → Option Nat
  | [], acc => some acc
  | c :: cs, acc =>
    match hexValue? c with
    | some d => hexNumber? cs (acc * 16 + d)
    | none => none

def codePoint (began : Mark) (digits : Nat) (c : Cursor) : Except Error (Char × Cursor) := do
  c.ensure digits
  let ds := (List.range digits).map c.peek
  match hexNumber? ds 0 with
  | none => c.fail began .noHexadecimal
  | some value =>
    if value.isValidChar then .ok (Char.ofNat value, c.skip digits) else c.fail began .badCodePoint

/-- Reads a word in single quotes up to a blank, a line end or the closing quote. -/
def singleWord : Nat → Cursor → (rev : List Char) → Except Error (List Char × Cursor)
  | 0, c, rev => .ok (rev, c)
  | n + 1, c, rev =>
    if endsWord c.head then .ok (rev, c)
    else if c.head = '\'' then
      if c.peek 1 = '\'' then do
        let c := c.skip 2
        c.ensure 2
        singleWord n c ('\'' :: rev)
      else .ok (rev, c)
    else do
      let ch := c.head
      let c := c.skip 1
      c.ensure 2
      singleWord n c (ch :: rev)

/--
Reads a word in double quotes up to a blank, a line end or the closing quote; tells whether it ended at an
escaped line break.
-/
def doubleWord (began : Mark) :
    Nat → Cursor → (rev : List Char) → Except Error (List Char × Bool × Cursor)
  | 0, c, rev => .ok (rev, false, c)
  | n + 1, c, rev =>
    if endsWord c.head || c.head = '"' then .ok (rev, false, c)
    else if c.head = '\\' then
      if isBreak (c.peek 1) then do
        c.ensure 3
        .ok (rev, true, (c.skip 1).skipBreak)
      else
        match escape? (c.peek 1) with
        | none => c.fail began .unknownEscape
        | some (.char ch) => do
          let c := c.skip 2
          c.ensure 2
          doubleWord began n c (ch :: rev)
        | some (.code digits) => do
          let (ch, c) ← codePoint began digits (c.skip 2)
          c.ensure 2
          doubleWord began n c (ch :: rev)
    else do
      let ch := c.head
      let c := c.skip 1
      c.ensure 2
      doubleWord began n c (ch :: rev)

/-- Reads a word of a quoted scalar; tells whether it ended at an escaped line break. -/
def quotedWord (single : Bool) (began : Mark) (c : Cursor) (rev : List Char) :
    Except Error (List Char × Bool × Cursor) :=
  if single then do
    let (rev, c) ← singleWord (c.rest.length + 1) c rev
    .ok (rev, false, c)
  else doubleWord began (c.rest.length + 1) c rev

/-- Reads a quoted scalar on from inside. -/
def quotedFrom (single : Bool) (began : Mark) :
    Nat → Cursor → (rev : List Char) → Except Error (List Char × Cursor)
  | 0, c, rev => .ok (rev, c)
  | n + 1, c, rev => do
    c.ensure 4
    if c.atBoundary then c.fail began .documentInScalar
    else if c.head = nul then c.fail began .endInScalar
    else
      let (rev, escaped, c) ← quotedWord single began c rev
      c.ensure 1
      if c.head = (if single then '\'' else '"') then .ok (rev, c.skip 1)
      else if escaped then
        let (more, c) ← moreBreaks 0 began (c.rest.length + 1) c []
        quotedFrom single began n c ((Gap.lines [] more).content.reverse ++ rev)
      else
        let (g, c) ← gap 0 began c
        quotedFrom single began n c (g.content.reverse ++ rev)

/-- Reads a quoted scalar; the cursor is at the opening quote. -/
def quoted (single : Bool) (c : Cursor) : Except Error (List Char × Cursor) := do
  let (rev, c) ← quotedFrom single c.mark (c.rest.length + 1) (c.skip 1) []
  .ok (rev.reverse, c)

/-- What becomes of the line breaks at the end of a block. -/
inductive Chomping where
  /-- One is kept. -/
  | clip
  | strip
  | keep
deriving DecidableEq, Repr

/-- The chomping a sign asks for. -/
def chomping? (c : Char) : Option Chomping :=
  if c = '+' then some .keep else if c = '-' then some .strip else none

def indentation (began : Mark) (c : Cursor) : Except Error (Nat × Cursor) :=
  if c.head.isDigit then
    if c.head = '0' then c.fail began .zeroIndentation
    else .ok (c.head.toNat - 0x30, c.skip 1)
  else .ok (0, c)

/-- Reads what the first line of a block asks for. -/
def blockHeader (began : Mark) (c : Cursor) : Except Error (Chomping × Nat × Cursor) := do
  c.ensure 1
  match chomping? c.head with
  | some chomping =>
    let c := c.skip 1
    c.ensure 1
    let (increment, c) ← indentation began c
    .ok (chomping, increment, c)
  | none =>
    let (increment, c) ← indentation began c
    c.ensure 1
    match chomping? c.head with
    | some chomping => .ok (chomping, increment, c.skip 1)
    | none => .ok (.clip, increment, c)

/-- Goes to the next line, past blanks and a comment. -/
def nextLine (began : Mark) (c : Cursor) : Except Error Cursor := do
  let c ← c.skipRun isBlank
  let c ← if c.head = '#' then c.skipComment else .ok c
  if endsLine c.head then
    c.ensure 2
    .ok c.skipBreak
  else c.fail began .noLineEnd

/--
Reads indentation and empty lines of a block; `indent` is zero while the indentation is unknown. The result is
the line breaks and the deepest column seen.
-/
def blockBreaks (began : Mark) (indent : Nat) :
    Nat → Cursor → (rev : List Char) → (deepest : Nat) → Except Error (List Char × Nat × Cursor)
  | 0, c, rev, deepest => .ok (rev.reverse, deepest, c)
  | n + 1, c, rev, deepest => do
    let spaces := c.rest.takeWhile (· = ' ')
    let c := c.past (if indent = 0 then spaces else spaces.take (indent - c.mark.column))
    c.ensure 1
    let deepest := max deepest c.mark.column
    if (indent = 0 || c.mark.column < indent) && c.head = '\t' then c.fail began .tabIndentation
    else if isBreak c.head then
      c.ensure 2
      let (br, c) := c.takeBreak
      c.ensure 1
      blockBreaks began indent n c (br.reverse ++ rev) deepest
    else .ok (rev.reverse, deepest, c)

/-- What was read of a block: its content, last character first, and the line breaks behind it. -/
structure Block where
  rev : List Char
  /-- The break of the last line. -/
  lead : List Char
  /-- Further breaks. -/
  trail : List Char
  /-- Whether the last line started with a blank. -/
  blankLine : Bool

/-- Adds a line to a block; in a folded block a line break between words is a space. -/
def Block.addLine (literal : Bool) (b : Block) (line : List Char) : List Char :=
  let startsBlank := isBlank (line.headD nul)
  let rev :=
    if !literal && !b.blankLine && !startsBlank && b.lead = ['\n'] then
      (if b.trail.isEmpty then ' ' :: b.rev else b.rev)
    else b.lead.reverse ++ b.rev
  line.reverse ++ (b.trail.reverse ++ rev)

def blockLines (literal : Bool) (began : Mark) (indent : Nat) :
    Nat → Cursor → Block → Except Error (Block × Cursor)
  | 0, c, b => .ok (b, c)
  | n + 1, c, b => do
    if c.mark.column = indent && c.head ≠ nul then
      let (line, c) ← c.takeRun (fun ch => !endsLine ch)
      c.ensure 2
      let (lead, c) := c.takeBreak
      let (trail, _, c) ← blockBreaks began indent (c.rest.length + 1) c [] 0
      blockLines literal began indent n c
        ⟨b.addLine literal line, lead, trail, isBlank (line.headD nul)⟩
    else .ok (b, c)

/-- Reads a block scalar; `floor` is the least indentation it can have. -/
def block (literal : Bool) (floor : Nat) (c : Cursor) : Except Error (List Char × Cursor) := do
  let began := c.mark
  let (chomping, increment, c) ← blockHeader began (c.skip 1)
  let c ← nextLine began c
  let asked := if increment = 0 then 0 else (floor - 1) + increment
  let (trail, deepest, c) ← blockBreaks began asked (c.rest.length + 1) c [] 0
  let indent := if asked = 0 then max (max deepest floor) 1 else asked
  let (b, c) ← blockLines literal began indent (c.rest.length + 1) c ⟨[], [], trail, false⟩
  let rev :=
    match chomping with
    | .strip => b.rev
    | .clip => b.lead.reverse ++ b.rev
    | .keep => b.trail.reverse ++ (b.lead.reverse ++ b.rev)
  .ok (rev.reverse, c)

end DartReach.Yaml.Scalar
