import DartReach.Yaml.Token.Scalar
import DartReach.Yaml.Token.Tag

/-!
# From characters to tokens

Tokens are read one after another. Two things are only known later. That a scalar is a key shows at the colon
behind it, at most 1024 characters on and in the same line; the key token is then put before the scalar. That
a block has ended shows at the first token with less indentation.

A reader of tokens sees a token when two more have been read and it can no longer turn out to be a key. So
when reading fails the tokens before the failure are those that were seen by then.
-/

namespace DartReach.Yaml

set_option autoImplicit false

/-- A token that may turn out to be a key. -/
structure KeyCandidate where
  /-- Its position among the tokens. -/
  number : Nat
  mark : Mark
  /-- Whether nothing else is allowed in its place. -/
  required : Bool
deriving DecidableEq, Repr

structure Lexer where
  cursor : Cursor
  /-- Tokens so far, the last first. -/
  tokens : List Token
  /-- Number of tokens so far. -/
  count : Nat
  /-- Indentation of the innermost block collection; `-1` outside all of them. -/
  indent : Int
  /-- Indentations of the collections around it, innermost first. -/
  outer : List Int
  /-- The candidate at the top level and inside every open bracket, innermost first. -/
  candidates : List (Option KeyCandidate)
  /-- Whether a key may start here. -/
  keyAllowed : Bool
  /-- Whether the end was read. -/
  finished : Bool
deriving DecidableEq, Repr

namespace Lexer

def start (s : Source) : Lexer where
  cursor := Cursor.start s
  tokens := []
  count := 0
  indent := -1
  outer := []
  candidates := [none]
  keyAllowed := true
  finished := false

/-- How deep brackets and blocks may nest. -/
def maxDepth : Nat := 10000

def flowDepth (l : Lexer) : Nat := l.candidates.length - 1

def inFlow (l : Lexer) : Bool := 0 < l.flowDepth

/-- The least column that lies inside the innermost block collection. -/
def floor (l : Lexer) : Nat := (l.indent + 1).toNat

def push (l : Lexer) (kind : Token.Kind) (mark : Mark) : Lexer :=
  { l with tokens := ⟨kind, mark⟩ :: l.tokens, count := l.count + 1 }

def insert (l : Lexer) (number : Nat) (kind : Token.Kind) (mark : Mark) : Lexer :=
  let behind := l.count - number
  { l with
    tokens := l.tokens.take behind ++ ⟨kind, mark⟩ :: l.tokens.drop behind
    count := l.count + 1 }

def pushSign (l : Lexer) (kind : Token.Kind) (width : Nat) : Lexer :=
  { l.push kind l.cursor.mark with cursor := l.cursor.skip width }

def candidate (l : Lexer) : Option KeyCandidate := l.candidates.headD none

def setCandidate (l : Lexer) (k : Option KeyCandidate) : Lexer :=
  { l with candidates := k :: l.candidates.drop 1 }

/-- Gives up the candidate of the innermost bracket; a required one must not be given up. -/
def dropCandidate (l : Lexer) : Except Error Lexer :=
  match l.candidate with
  | some k => if k.required then l.cursor.fail k.mark .noColon else .ok (l.setCandidate none)
  | none => .ok l

/-- Makes the token to come a candidate where a key may start. -/
def saveCandidate (l : Lexer) : Except Error Lexer :=
  if l.keyAllowed then
    match l.dropCandidate with
    | .error e => .error e
    | .ok l =>
      .ok (l.setCandidate (some
        ⟨l.count, l.cursor.mark, !l.inFlow && l.indent = (l.cursor.mark.column : Int)⟩))
  else .ok l

/-- Whether a candidate lies too far back to be a key. -/
def isStale (l : Lexer) (k : KeyCandidate) : Bool :=
  k.mark.line < l.cursor.mark.line || k.mark.index + 1024 < l.cursor.mark.index

/-- The candidate if it still can be a key; a required one must not be too far back. -/
def liveCandidate (l : Lexer) : Except Error (Option KeyCandidate) :=
  match l.candidate with
  | none => .ok none
  | some k =>
    if l.isStale k then
      if k.required then l.cursor.fail k.mark .noColon else .ok none
    else .ok (some k)

/-- Starts a block collection at a column deeper than the current one; its token comes at `number`. -/
def openBlock (l : Lexer) (column number : Nat) (kind : Token.Kind) (mark : Mark) : Except Error Lexer :=
  if l.inFlow then .ok l
  else if l.indent < (column : Int) then
    if maxDepth ≤ l.outer.length then l.cursor.fail l.cursor.mark .tooDeep
    else
      .ok { l.insert number kind mark with indent := column, outer := l.indent :: l.outer }
  else .ok l

/-- Ends block collections that are indented deeper than a column. -/
def closeBlocks (column : Int) (mark : Mark) (l : Lexer) : List Int → Lexer
  | [] => l
  | indent :: outer =>
    if column < l.indent then
      closeBlocks column mark { l.push .blockEnd mark with indent := indent, outer := outer } outer
    else l

/-- Ends the block collections that end before a column. -/
def unroll (l : Lexer) (column : Int) (mark : Mark) : Lexer :=
  if l.inFlow then l else closeBlocks column mark l l.outer

/-- Ends all blocks before something that stands outside of them. -/
def leaveBlocks (l : Lexer) : Except Error Lexer :=
  match (l.unroll (-1) l.cursor.mark).dropCandidate with
  | .error e => .error e
  | .ok l => .ok { l with keyAllowed := false }

/-- The end of the document; it counts as the start of a line. -/
def endStream (l : Lexer) : Except Error Lexer :=
  let mark := l.cursor.mark
  let mark := if mark.column = 0 then mark else ⟨mark.index, mark.line + 1, 0⟩
  match { l with cursor := { l.cursor with mark := mark } }.leaveBlocks with
  | .error e => .error e
  | .ok l => .ok { l.push .streamEnd mark with finished := true }

def directive (l : Lexer) : Except Error Lexer := do
  let l ← l.leaveBlocks
  let (kind, c) ← Tag.directive l.cursor
  .ok { l.push kind l.cursor.mark with cursor := c }

def boundary (l : Lexer) (kind : Token.Kind) : Except Error Lexer := do
  let l ← l.leaveBlocks
  .ok (l.pushSign kind 3)

def openFlow (l : Lexer) (kind : Token.Kind) : Except Error Lexer := do
  let l ← l.saveCandidate
  let l := { l with candidates := none :: l.candidates }
  if maxDepth < l.flowDepth then l.cursor.fail l.cursor.mark .tooDeep
  else .ok { l.pushSign kind 1 with keyAllowed := true }

def closeFlow (l : Lexer) (kind : Token.Kind) : Except Error Lexer := do
  let l ← l.dropCandidate
  let l := if l.inFlow then { l with candidates := l.candidates.drop 1 } else l
  .ok { l.pushSign kind 1 with keyAllowed := false }

def comma (l : Lexer) : Except Error Lexer := do
  let l ← l.dropCandidate
  .ok { l.pushSign .comma 1 with keyAllowed := true }

def dash (l : Lexer) : Except Error Lexer := do
  let mark := l.cursor.mark
  if !l.inFlow && !l.keyAllowed then l.cursor.fail mark .entryNotAllowed
  else
    let l ← l.openBlock mark.column l.count .blockSequence mark
    let l ← l.dropCandidate
    .ok { l.pushSign .dash 1 with keyAllowed := true }

def questionMark (l : Lexer) : Except Error Lexer := do
  let mark := l.cursor.mark
  if !l.inFlow && !l.keyAllowed then l.cursor.fail mark .keyNotAllowed
  else
    let l ← l.openBlock mark.column l.count .blockMapping mark
    let l ← l.dropCandidate
    .ok { l.pushSign .key 1 with keyAllowed := !l.inFlow }

def colon (l : Lexer) : Except Error Lexer := do
  let mark := l.cursor.mark
  match ← l.liveCandidate with
  | some k =>
    let l ← (l.insert k.number .key k.mark).openBlock k.mark.column k.number .blockMapping k.mark
    .ok { (l.setCandidate none).pushSign .value 1 with keyAllowed := false }
  | none =>
    if !l.inFlow && !l.keyAllowed then l.cursor.fail mark .valueNotAllowed
    else
      let l ← (l.setCandidate none).openBlock mark.column l.count .blockMapping mark
      .ok { l.pushSign .value 1 with keyAllowed := !l.inFlow }

def anchor (l : Lexer) (kind : List Char → Token.Kind) : Except Error Lexer := do
  let l ← l.saveCandidate
  let (name, c) ← Tag.anchorName l.cursor
  .ok { l.push (kind name) l.cursor.mark with cursor := c, keyAllowed := false }

def tag (l : Lexer) : Except Error Lexer := do
  let l ← l.saveCandidate
  let (handle, suffix, c) ← Tag.read l.cursor
  .ok { l.push (.tag handle suffix) l.cursor.mark with cursor := c, keyAllowed := false }

def blockScalar (l : Lexer) (literal : Bool) : Except Error Lexer := do
  let l ← l.dropCandidate
  let (content, c) ← Scalar.block literal l.floor l.cursor
  let style := if literal then Style.literal else Style.folded
  .ok { l.push (.scalar content style) l.cursor.mark with cursor := c, keyAllowed := true }

def quotedScalar (l : Lexer) (single : Bool) : Except Error Lexer := do
  let l ← l.saveCandidate
  let (content, c) ← Scalar.quoted single l.cursor
  let style := if single then Style.singleQuoted else Style.doubleQuoted
  .ok { l.push (.scalar content style) l.cursor.mark with cursor := c, keyAllowed := false }

def plainScalar (l : Lexer) : Except Error Lexer := do
  let l ← l.saveCandidate
  let (content, newLine, c) ← Scalar.plain l.inFlow l.floor l.cursor
  .ok { l.push (.scalar content .plain) l.cursor.mark with cursor := c, keyAllowed := newLine }

/-- Goes past blanks, comments and line breaks; tabs count as blanks where no key may start. -/
def toNextToken (inFlow : Bool) : Nat → (keyAllowed : Bool) → Cursor → Except Error (Bool × Cursor)
  | 0, keyAllowed, c => .ok (keyAllowed, c)
  | n + 1, keyAllowed, c => do
    c.ensure 1
    let c := if c.mark.column = 0 && c.head = '\ufeff' then c.skip 1 else c
    c.ensure 1
    let c ← c.skipRun (fun ch => ch = ' ' || ((inFlow || !keyAllowed) && ch = '\t'))
    let c ←
      if c.head = '#' then
        match c.skipComment with
        | .error e => .error e
        | .ok c => c.skipFurtherComments (c.rest.length + 1)
      else .ok c
    if isBreak c.head then
      c.ensure 2
      toNextToken inFlow n (keyAllowed || !inFlow) c.skipBreak
    else .ok (keyAllowed, c)

/-- Characters that start no plain scalar. -/
def isIndicator (c : Char) : Bool := "-?:,[]\x7b\x7d#&*!|>'\"%@`".toList.contains c

def startsPlain (l : Lexer) : Bool :=
  let c := l.cursor.head
  let next := l.cursor.peek 1
  !(endsWord c || isIndicator c) || (c = '-' && !isBlank next)
    || (!l.inFlow && (c = '?' || c = ':') && !endsWord next)

/-- Reads the token at the cursor, which is not at the end or the boundary of a document. -/
def readToken (l : Lexer) : Except Error Lexer :=
  let c := l.cursor.head
  let alone := l.inFlow || endsWord (l.cursor.peek 1)
  if c = '[' then l.openFlow .openBracket
  else if c = '\x7b' then l.openFlow .openBrace
  else if c = ']' then l.closeFlow .closeBracket
  else if c = '\x7d' then l.closeFlow .closeBrace
  else if c = ',' then l.comma
  else if c = '-' && endsWord (l.cursor.peek 1) then l.dash
  else if c = '?' && alone then l.questionMark
  else if c = ':' && alone then l.colon
  else if c = '*' then l.anchor .alias
  else if c = '&' then l.anchor .anchor
  else if c = '!' then l.tag
  else if c = '|' && !l.inFlow then l.blockScalar true
  else if c = '>' && !l.inFlow then l.blockScalar false
  else if c = '\'' then l.quotedScalar true
  else if c = '"' then l.quotedScalar false
  else if l.startsPlain then l.plainScalar
  else l.cursor.fail l.cursor.mark .noToken

/-- Goes past the comment behind a token; a dash has none. -/
def afterToken (l : Lexer) : Except Error Lexer :=
  match l.tokens with
  | ⟨.dash, _⟩ :: _ => .ok l
  | _ =>
    match l.cursor.skipLineComment with
    | .error e => .error e
    | .ok c => .ok { l with cursor := c }

def next (l : Lexer) : Except Error Lexer := do
  let before := l.cursor.mark
  let (keyAllowed, c) ← toNextToken l.inFlow (l.cursor.rest.length + 1) l.keyAllowed l.cursor
  let l := { l with keyAllowed := keyAllowed, cursor := c }
  let l := l.unroll c.mark.column before
  c.ensure 4
  if c.head = nul then l.endStream
  else if c.mark.column = 0 && c.head = '%' then l.directive
  else if c.atDocument '-' then l.boundary .documentStart
  else if c.atDocument '.' then l.boundary .documentEnd
  else
    let l ← l.readToken
    l.afterToken

/--
Lets a reader see tokens; `seen` is the number of those it saw before. It fails where the next one is a
required key that lies too far back.
-/
def reveal (l : Lexer) : Nat → (seen : Nat) → Nat × Except Error Unit
  | 0, seen => (seen, .ok ())
  | n + 1, seen =>
    if seen + 2 < l.count then
      match (l.candidates.filterMap id).find? (·.number = seen) with
      | none => reveal l n (seen + 1)
      | some k =>
        if l.isStale k then
          if k.required then (seen, l.cursor.fail k.mark .noColon) else reveal l n (seen + 1)
        else (seen, .ok ())
    else (seen, .ok ())

end Lexer

/-- Tokens up to the end of a document, or up to where reading fails. -/
structure Tokens where
  items : List Token
  /-- What happens behind the tokens; `none` at the end. -/
  fault : Option Error
deriving DecidableEq, Repr

namespace Lexer

/-- The tokens a reader saw before a failure. -/
def failed (l : Lexer) (seen : Nat) (e : Error) : Tokens := ⟨l.tokens.reverse.take seen, some e⟩

/-- Reads tokens to the end; `n` bounds their number. -/
def finish : Nat → Lexer → (seen : Nat) → Tokens
  | 0, l, _ => ⟨l.tokens.reverse, none⟩
  | n + 1, l, seen =>
    if l.finished then ⟨l.tokens.reverse, none⟩
    else
      match l.reveal (l.count + 1) seen with
      | (seen, .error e) => l.failed seen e
      | (seen, .ok ()) =>
        match l.next with
        | .error e => l.failed seen e
        | .ok l => finish n l seen

end Lexer

def Tokens.ofSource (s : Source) : Tokens :=
  let l := Lexer.start s
  match l.cursor.ensure 1 with
  | .error e => ⟨[], some e⟩
  | .ok () => (l.push .streamStart l.cursor.mark).finish (s.chars.length + 2) 0

end DartReach.Yaml
