import DartReach.Text.Utf8

/-!
# Tokens of an ignore file

A file is read line by line as slashes, double stars, blanks and pieces of pattern. A `#` at the very
start of a line begins a comment, a `!` there a negation. The character U+0000 counts as an end: behind a
piece of text it ends that piece, elsewhere the line.
-/

namespace DartReach.Ignore

set_option autoImplicit false

inductive Token where
  | separator
  | anyDepth
  | blank (cs : List Char)
  | piece (cs : List Char)
  | negation
  | comment
  | endOfLine
  | endOfFile
  /-- A return that no line feed follows. -/
  | bad
deriving DecidableEq, Repr

/-- The text of a token that takes part in matching. -/
def Token.text : Token → List Char
  | .separator => ['/']
  | .anyDepth => ['*', '*']
  | .blank cs => cs
  | .piece cs => cs
  | _ => []

def stop : Char := Char.ofNat 0

/-- The text behind an end character, which is read; anything else stays. -/
def afterStop : List Char → List Char
  | c :: rest => if c == stop then rest else c :: rest
  | [] => []

def blanks : List Char → List Char × List Char
  | [] => ([], [])
  | c :: rest =>
    if c == ' ' || c == '\t' then
      let (cs, left) := blanks rest
      (c :: cs, left)
    else ([], afterStop (c :: rest))

def afterComment : List Char → List Char
  | [] => []
  | c :: rest =>
    if c == '\r' || c == '\n' then c :: rest
    else if c == stop then rest
    else afterComment rest

def endsPiece (c : Char) : Bool := c == ' ' || c == '\t' || c == '\r' || c == '\n' || c == '/'

/--
A piece of pattern and what follows. A double star ends it; a backslash takes the next character along,
unless the line or the text ends there.
-/
def piece : (fuel : Nat) → List Char → List Char × List Char
  | 0, s => ([], s)
  | _, [] => ([], [])
  | fuel + 1, c :: rest =>
    if c == stop then ([], rest)
    else if endsPiece c then ([], c :: rest)
    else if c == '*' then
      if rest.head? == some '*' then ([], c :: rest)
      else
        let (cs, left) := piece fuel (afterStop rest)
        (c :: cs, left)
    else if c == '\\' then
      match rest with
      | [] => ([c], [])
      | d :: after =>
        if d == stop then
          let (cs, left) := piece fuel after
          (c :: cs, left)
        else if d == '\r' || d == '\n' then ([c], rest)
        else
          let (cs, left) := piece fuel after
          (c :: d :: cs, left)
    else
      let (cs, left) := piece fuel rest
      (c :: cs, left)

def pieceToken (s : List Char) : Token × List Char :=
  let (cs, left) := piece (s.length + 1) s
  (.piece cs, left)

/-- The next token; `start` says whether it begins a line. -/
def nextToken (start : Bool) (s : List Char) : Token × List Char :=
  match s with
  | [] => (.endOfFile, [])
  | c :: rest =>
    if c == stop then (.endOfFile, rest)
    else if c == ' ' || c == '\t' then
      let (cs, left) := blanks s
      (.blank cs, left)
    else if c == '\n' then (.endOfLine, rest)
    else if c == '\r' then
      match rest with
      | '\n' :: rest => (.endOfLine, rest)
      | _ => (.bad, afterStop rest)
    else if c == '/' then (.separator, rest)
    else if c == '*' then
      if rest.head? == some '*' then (.anyDepth, rest.tail)
      else pieceToken (c :: afterStop rest)
    else if start && c == '#' then (.comment, afterComment s)
    else if start && c == '!' then (.negation, rest)
    else pieceToken s

/-- All tokens of a text; the end of the text is not one of them. -/
def tokens : (fuel : Nat) → (start : Bool) → List Char → List Token
  | 0, _, _ => []
  | _, _, [] => []
  | fuel + 1, start, s =>
    let (t, rest) := nextToken start s
    t :: tokens fuel (t == .endOfLine) rest

end DartReach.Ignore
