import DartReach.Yaml.Error

/-!
# Reading characters

A cursor is a position in the characters of a document. Behind the last character it sees NUL, which no
document can hold. Whoever looks ahead first makes sure that the characters can be decoded.
-/

namespace DartReach.Yaml

set_option autoImplicit false

/-- What stands behind the last character. -/
def nul : Char := '\x00'

def isBlank (c : Char) : Bool := c = ' ' || c = '\t'

def isBreak (c : Char) : Bool :=
  c = '\n' || c = '\r' || c = '\u0085' || c = '\u2028' || c = '\u2029'

def endsLine (c : Char) : Bool := isBreak c || c = nul

/-- The end of a word, a line or the document. -/
def endsWord (c : Char) : Bool := isBlank c || endsLine c

def isNameChar (c : Char) : Bool := c.isAlphanum || c = '_' || c = '-'

def hexValue? (c : Char) : Option Nat :=
  if '0' ≤ c && c ≤ '9' then some (c.toNat - 0x30)
  else if 'a' ≤ c && c ≤ 'f' then some (c.toNat - 0x57)
  else if 'A' ≤ c && c ≤ 'F' then some (c.toNat - 0x37)
  else none

structure Cursor where
  rest : List Char
  /-- What happens behind the rest. -/
  fault : Option SourceError
  mark : Mark
  /-- Whether only blanks stand between the last line break and here. -/
  fresh : Bool
deriving DecidableEq, Repr

namespace Cursor

def start (s : Source) : Cursor := ⟨s.chars, s.fault, ⟨0, 0, 0⟩, false⟩

def peek (c : Cursor) (i : Nat) : Char := c.rest.getD i nul

def head (c : Cursor) : Char := c.rest.headD nul

/-- Fails if one of the next `n` characters cannot be decoded. -/
def ensure (c : Cursor) (n : Nat) : Except Error Unit :=
  match c.fault with
  | none => .ok ()
  | some e => if (c.rest.take n).length < n then .error ⟨0, .source e⟩ else .ok ()

/-- Goes past characters of one line. -/
def past (c : Cursor) (taken : List Char) : Cursor :=
  let n := taken.length
  { c with
    rest := c.rest.drop n
    mark := ⟨c.mark.index + n, c.mark.line, c.mark.column + n⟩
    fresh := c.fresh && taken.all isBlank }

def skip (c : Cursor) (n : Nat) : Cursor := c.past (c.rest.take n)

def takeRun (p : Char → Bool) (c : Cursor) : Except Error (List Char × Cursor) :=
  let taken := c.rest.takeWhile p
  let c := c.past taken
  match c.ensure 1 with
  | .error e => .error e
  | .ok () => .ok (taken, c)

def skipRun (p : Char → Bool) (c : Cursor) : Except Error Cursor :=
  match c.takeRun p with
  | .error e => .error e
  | .ok (_, c) => .ok c

/-- Goes past a line break of `n` characters. -/
def pastBreak (c : Cursor) (n : Nat) : Cursor :=
  { c with
    rest := c.rest.drop n
    mark := ⟨c.mark.index + n, c.mark.line + 1, 0⟩
    fresh := true }

/-- Goes past a line break and tells how it reads: a line feed, or the break itself. -/
def takeBreak (c : Cursor) : List Char × Cursor :=
  match c.rest with
  | '\r' :: '\n' :: _ => (['\n'], c.pastBreak 2)
  | ch :: _ =>
    if ch = '\u2028' || ch = '\u2029' then ([ch], c.pastBreak 1)
    else if isBreak ch then (['\n'], c.pastBreak 1)
    else ([], c)
  | [] => ([], c)

def skipBreak (c : Cursor) : Cursor := c.takeBreak.2

/-- Whether a document starts or ends here: `---` or `...` at the start of a line, as a word. -/
def atDocument (c : Cursor) (sign : Char) : Bool :=
  c.mark.column = 0 && c.peek 0 = sign && c.peek 1 = sign && c.peek 2 = sign && endsWord (c.peek 3)

def atBoundary (c : Cursor) : Bool := c.atDocument '-' || c.atDocument '.'

def fail {α : Type} (c : Cursor) (began : Mark) (problem : Problem) : Except Error α :=
  .error (Error.inToken began c.mark problem)

/-- Goes past characters of several lines; `n` bounds the number of steps. -/
def pastLines : Nat → (count : Nat) → Cursor → Cursor
  | 0, _, c => c
  | n + 1, count, c =>
    if c.mark.index < count then
      pastLines n count (if isBreak c.head then c.skipBreak else c.skip 1)
    else c

/-- How far comments look ahead for another one. -/
def reach : Nat := 512

/-- Goes past a comment that starts here, to the end of its line. -/
def skipComment (c : Cursor) : Except Error Cursor := c.skipRun (fun ch => !endsLine ch)

/-- Goes past the comments of the next lines, blank lines between them; the cursor is at a line end. -/
def skipFurtherComments : Nat → Cursor → Except Error Cursor
  | 0, c => .ok c
  | n + 1, c =>
    let gap := (c.rest.drop 1).takeWhile (fun ch => isBlank ch || isBreak ch)
    let ahead := gap.length + 1
    if ahead < reach && c.peek ahead = '#' then
      match (pastLines (ahead + 1) (c.mark.index + ahead) c).skipComment with
      | .error e => .error e
      | .ok c => skipFurtherComments n c
    else .ok c

/-- Goes past the comment behind a token, unless the token ended on a line before. -/
def skipLineComment (c : Cursor) : Except Error Cursor :=
  let gap := c.rest.takeWhile isBlank
  if !c.fresh && gap.length < reach && c.peek gap.length = '#' then (c.past gap).skipComment
  else .ok c

end Cursor

end DartReach.Yaml
