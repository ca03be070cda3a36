import DartReach.Text.Quoted

/-!
# Glob patterns

`*` stands for any text without slash, `**` for any text, `?` for one character other than a slash,
`[abc]` and `[a-z]` for one character of a class, `[!…]` for one outside it, and `{a,b}` for one of
several patterns. A backslash takes the meaning from the character behind it.

The text of a pattern ends at U+0000, unless that character follows plain text: there it only ends the
text. A comma or closing brace outside braces is plain text, and braces left open close at the end.
-/

namespace DartReach.Glob

set_option autoImplicit false

inductive Part where
  | text (cs : List Char)
  /-- Any text without slash. -/
  | any
  /-- Any text. -/
  | deep
  /-- One character other than a slash. -/
  | single
  /-- One character of a list, or one that is not in it. -/
  | oneOf (cs : List Char) (negated : Bool)
  /-- One character between two, or one that is not. -/
  | range (lo hi : Char) (negated : Bool)
  /-- One of several patterns. -/
  | choice (alternatives : List (List Part))
deriving BEq

inductive Error where
  /-- A class is not closed. -/
  | unexpectedEnd
  /-- Something other than `]` stands behind a range. -/
  | expectedClose
  /-- A class is empty. -/
  | emptyClass
  /-- The ends of a range are in the wrong order. -/
  | wrongOrder (lo hi : Char)
  /-- The text holds a byte that is no character, or U+FFFD. -/
  | badCharacter
deriving DecidableEq, Repr

def Error.message : Error → Bytes
  | .unexpectedEnd => text "unexpected end of input"
  | .expectedClose => text "expected close range character"
  | .emptyClass => text "could not parse range"
  | .wrongOrder lo hi =>
    text "hi character '" ++ encode [hi] ++ text "' should be greater than lo '" ++ encode [lo]
      ++ text "'"
  | .badCharacter => text "could not read rune"

def stop : Char := Char.ofNat 0

/-- Whether nothing can be read at the front: the end, the end character or no character at all. -/
def atEnd : List Char → Bool
  | [] => true
  | c :: _ => c == stop || c == Utf8.replacement

def atBad : List Char → Bool
  | c :: _ => c == Utf8.replacement
  | [] => false

/-- What is left behind the end: an end character is read, anything else stays. -/
def afterEnd : List Char → List Char
  | c :: rest => if c == stop then rest else c :: rest
  | [] => []

/--
Plain text up to one of `breakers` or the end, and what is left. A backslash is dropped and the
character behind it taken as it is.
-/
def plainText (breakers : List Char) : (escaped : Bool) → List Char → List Char × List Char
  | _, [] => ([], [])
  | escaped, c :: rest =>
    if atEnd (c :: rest) then ([], afterEnd (c :: rest))
    else if !escaped && c == '\\' then plainText breakers true rest
    else if !escaped && breakers.contains c then ([], c :: rest)
    else
      let (taken, left) := plainText breakers false rest
      (c :: taken, left)

def classEnd (part : Part) (s : List Char) : Except Error (Part × List Char) :=
  if atEnd s then .error .unexpectedEnd
  else
    match s with
    | ']' :: rest => .ok (part, rest)
    | _ => .error .expectedClose

/-- The rest of `[lo-hi]` behind the hyphen. -/
def rangeEnd (negated : Bool) (lo : Char) (s : List Char) : Except Error (Part × List Char) :=
  if atEnd s then .error .unexpectedEnd
  else
    match s with
    | [] => .error .unexpectedEnd
    | hi :: rest =>
      match classEnd (.range lo hi negated) rest with
      | .error e => .error e
      | .ok r => if hi < lo then .error (.wrongOrder lo hi) else .ok r

/-- The members of a class: a range, or a list of characters. -/
def classMembers (negated : Bool) (s : List Char) : Except Error (Part × List Char) :=
  if atEnd s then .error .unexpectedEnd
  else
    match s with
    | lo :: '-' :: rest => rangeEnd negated lo rest
    | ']' :: rest =>
      if atBad rest then .error .badCharacter else .error .emptyClass
    | _ =>
      let (cs, left) := plainText [']'] false s
      match classEnd (.oneOf cs negated) left with
      | .error e => .error e
      | .ok r => if cs.isEmpty then .error .emptyClass else .ok r

/-- The class behind an opening bracket. -/
def classBody (s : List Char) : Except Error (Part × List Char) :=
  match s with
  | '!' :: rest => classMembers true rest
  | _ => classMembers false s

/-- A brace that is still open: what stands before it and the alternatives that are complete, all reversed. -/
structure Brace where
  before : List Part
  alternatives : List (List Part)

/-- The open brace closed, with `current` as its last alternative. -/
def Brace.close (b : Brace) (current : List Part) : List Part :=
  .choice (current.reverse :: b.alternatives).reverse :: b.before

def closeAll : List Brace → List Part → List Part
  | [], current => current.reverse
  | b :: braces, current => closeAll braces (b.close current)

def textBreakers : List Char := ['?', '*', '[', '{']

def braceBreakers : List Char := textBreakers ++ ['}', ',']

/-- Reads on: `braces` holds the open braces and `current` the parts since the last of them, reversed. -/
def parseFrom : (fuel : Nat) → List Brace → List Part → List Char → Except Error (List Part)
  | 0, braces, current, _ => .ok (closeAll braces current)
  | fuel + 1, braces, current, s =>
    match s with
    | [] => .ok (closeAll braces current)
    | c :: rest =>
      if c == Utf8.replacement then .error .badCharacter
      else if c == stop then .ok (closeAll braces current)
      else
        match c, braces with
        | '{', _ => parseFrom fuel (⟨current, []⟩ :: braces) [] rest
        | '[', _ =>
          match classBody rest with
          | .error e => .error e
          | .ok (part, left) => parseFrom fuel braces (part :: current) left
        | '?', _ => parseFrom fuel braces (.single :: current) rest
        | '*', _ =>
          match rest with
          | '*' :: rest => parseFrom fuel braces (.deep :: current) rest
          | _ =>
            if atBad rest then .error .badCharacter
            else parseFrom fuel braces (.any :: current) rest
        | ',', b :: outer =>
          parseFrom fuel ({ b with alternatives := current.reverse :: b.alternatives } :: outer) [] rest
        | '}', b :: outer => parseFrom fuel outer (b.close current) rest
        | _, _ =>
          let breakers := if braces.isEmpty then textBreakers else braceBreakers
          let (cs, left) := plainText breakers false s
          if atBad left then .error .badCharacter
          else if cs.isEmpty then parseFrom fuel braces current left
          else parseFrom fuel braces (.text cs :: current) left

def parse (pattern : Bytes) : Except Error (List Part) :=
  let cs := Utf8.decode pattern
  parseFrom (cs.length + 1) [] [] cs

end DartReach.Glob
