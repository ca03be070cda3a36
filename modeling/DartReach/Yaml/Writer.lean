import DartReach.Text.Base64
import DartReach.Text.Utf8
import DartReach.Yaml.Cursor
import DartReach.Yaml.Plain
import DartReach.Yaml.Token

/-!
# Writing documents

A document here is a mapping of names to strings, lists of strings and truth values. A string is written
plain if it then reads back as itself. One with line feeds is written as a block, one that would be read
as something else in double quotes, one with signs of the language in single quotes. What cannot be shown
is escaped in double quotes, and bytes that are no text are written in base 64.
-/

namespace DartReach.Yaml.Writer

set_option autoImplicit false

def isPrintable (c : Char) : Bool :=
  let n := c.toNat
  n = 0x0A || (0x20 ≤ n && n ≤ 0x7E) || (0xA0 ≤ n && n ≤ 0xFFFD && n ≠ 0xFEFF)

/-- Words that are truth values elsewhere. -/
def isOldBool (s : String) : Bool :=
  ["y", "Y", "yes", "Yes", "YES", "on", "On", "ON",
    "n", "N", "no", "No", "NO", "off", "Off", "OFF"].contains s

/-- Whether this is a group behind a colon in a number of base 60: one or two digits below 60. -/
def isSexagesimal (cs : List Char) : Bool :=
  match cs with
  | [a] => a.isDigit
  | [a, b] => '0' ≤ a && a ≤ '5' && b.isDigit
  | _ => false

def colonPieces : List Char → List (List Char)
  | [] => [[]]
  | c :: cs =>
    if c = ':' then [] :: colonPieces cs
    else
      match colonPieces cs with
      | [] => [[c]]
      | p :: ps => (c :: p) :: ps

def isDigitOrUnderscore (c : Char) : Bool := c.isDigit || c = '_'

/-- Whether this is a number of base 60: groups between colons, perhaps a fraction behind a point. -/
def isBase60 (cs : List Char) : Bool :=
  let body := (Plain.signOf cs).2
  let whole := body.takeWhile (· ≠ '.')
  let fraction := (body.dropWhile (· ≠ '.')).drop 1
  match colonPieces whole with
  | first :: more@(_ :: _) =>
    (first.headD nul).isDigit && first.all isDigitOrUnderscore && more.all isSexagesimal
      && fraction.all isDigitOrUnderscore
  | _ => false

/-- Whether a plain scalar reads as a string, here and elsewhere. -/
def readsAsString (cs : List Char) : Bool :=
  Plain.meaning true cs = .string && !isBase60 cs && !isOldBool (String.ofList cs)

/-- Whether two neighbours satisfy two conditions. -/
def hasNeighbours (p q : Char → Bool) : List Char → Bool
  | a :: b :: rest => (p a && q b) || hasNeighbours p q (b :: rest)
  | _ => false

def blankFollows (rest : List Char) : Bool :=
  match rest with
  | [] => true
  | c :: _ => isBlank c

/-- Whether a scalar starts with a sign of the language. -/
def startsWithSign : List Char → Bool
  | [] => false
  | c :: rest =>
    "#,[]\x7b\x7d&*!|>'\"%@`".toList.contains c
      || ((c = '?' || c = ':' || c = '-') && blankFollows rest)

/--
Whether there is a colon before a blank or the end, or a hash behind a blank, behind the first character.
-/
def hasInnerSign : (previous : Char) → List Char → Bool
  | _, [] => false
  | previous, c :: rest =>
    (c = ':' && blankFollows rest) || (c = '#' && endsWord previous) || hasInnerSign c rest

def startsLikeBoundary (cs : List Char) : Bool :=
  ['-', '-', '-'].isPrefixOf cs || ['.', '.', '.'].isPrefixOf cs

/-- Whether a scalar has a sign of the language where it would be read as one. -/
def hasSign (cs : List Char) : Bool :=
  startsLikeBoundary cs || startsWithSign cs || hasInnerSign (cs.headD nul) (cs.drop 1)

/-- Whether a scalar has characters that cannot be shown, tabs apart. -/
def hasHidden (cs : List Char) : Bool := cs.any (fun c => c ≠ '\t' && !isPrintable c)

def isSpaceChar (c : Char) : Bool := c = ' '

/-- Whether a space stands before a line break. -/
def hasSpaceBreak (cs : List Char) : Bool := hasNeighbours isSpaceChar isBreak cs

/-- Whether a block can hold a scalar. -/
def fitsBlock (cs : List Char) : Bool :=
  !hasHidden cs && !hasSpaceBreak cs && cs.getLast? ≠ some ' '

/-- Whether single quotes can hold a scalar. -/
def fitsSingle (cs : List Char) : Bool :=
  !hasHidden cs && !hasSpaceBreak cs && !cs.contains '\t' && !hasNeighbours isBreak isSpaceChar cs

/-- Whether a scalar can be written plain. -/
def fitsPlain (cs : List Char) : Bool :=
  fitsSingle cs && !cs.any isBreak && cs.head? ≠ some ' ' && cs.getLast? ≠ some ' ' && !hasSign cs

def styleOf (cs : List Char) : Style :=
  if cs.contains '\n' then (if fitsBlock cs then .literal else .doubleQuoted)
  else if readsAsString cs then
    if fitsPlain cs then .plain else if fitsSingle cs then .singleQuoted else .doubleQuoted
  else .doubleQuoted

def hexDigits (width n : Nat) : List Char :=
  (List.range width).reverse.map (fun i =>
    let d := n / Nat.pow 16 i % 16
    Char.ofNat (if d < 10 then 0x30 + d else 0x37 + d))

def escape (c : Char) : List Char :=
  let n := c.toNat
  if n = 0x00 then ['0']
  else if n = 0x07 then ['a']
  else if n = 0x08 then ['b']
  else if n = 0x09 then ['t']
  else if n = 0x0A then ['n']
  else if n = 0x0B then ['v']
  else if n = 0x0C then ['f']
  else if n = 0x0D then ['r']
  else if n = 0x1B then ['e']
  else if n = 0x22 then ['"']
  else if n = 0x5C then ['\\']
  else if n = 0x85 then ['N']
  else if n = 0xA0 then ['_']
  else if n = 0x2028 then ['L']
  else if n = 0x2029 then ['P']
  else if n ≤ 0xFF then 'x' :: hexDigits 2 n
  else if n ≤ 0xFFFF then 'u' :: hexDigits 4 n
  else 'U' :: hexDigits 8 n

def doubleChar (c : Char) : List Char :=
  if !isPrintable c || isBreak c || c = '"' || c = '\\' then '\\' :: escape c else [c]

def double (cs : List Char) : List Char := '"' :: cs.flatMap doubleChar ++ ['"']

/-- The inside of single quotes; a line that goes on is indented. -/
def singleBody (indent : Nat) : (afterBreak : Bool) → List Char → List Char
  | _, [] => []
  | afterBreak, c :: rest =>
    if isBreak c then c :: singleBody indent true rest
    else
      (if afterBreak then List.replicate indent ' ' else [])
        ++ (if c = '\'' then ['\'', '\''] else [c]) ++ singleBody indent false rest

def single (indent : Nat) (cs : List Char) : List Char := '\'' :: singleBody indent false cs ++ ['\'']

def step : Nat := 4

/-- What the first line of a block says: the indentation if it cannot be seen, and what becomes of its end. -/
def blockHints (cs : List Char) : List Char :=
  (match cs with
    | c :: _ => if c = ' ' || isBreak c then Nat.toDigits 10 step else []
    | [] => [])
  ++ (match cs.reverse with
    | [] => ['-']
    | [c] => if isBreak c then ['+'] else ['-']
    | c :: d :: _ => if !isBreak c then ['-'] else if isBreak d then ['+'] else [])

def blockBody (indent : Nat) : (afterBreak : Bool) → List Char → List Char
  | _, [] => []
  | afterBreak, c :: rest =>
    if isBreak c then c :: blockBody indent true rest
    else (if afterBreak then List.replicate indent ' ' else []) ++ c :: blockBody indent false rest

/-- A string as a block; a line break at its start ends the first line. -/
def block (indent : Nat) (cs : List Char) : List Char :=
  let start := match cs with | c :: _ => if isBreak c then [] else ['\n'] | [] => []
  '|' :: blockHints cs ++ start ++ blockBody indent true cs

/-- A line feed, unless the text ends with a line break. -/
def lineEnd (cs : List Char) : List Char := if cs.getLast?.any isBreak then [] else ['\n']

/-- Text as a scalar, with the end of its line. -/
def textScalar (indent : Nat) (style : Style) (cs : List Char) : List Char :=
  match style with
  | .plain => cs ++ ['\n']
  | .singleQuoted => single indent cs ++ ['\n']
  | .literal => block indent cs ++ lineEnd cs
  | _ => double cs ++ ['\n']

/-- Characters of base 64 in a line. -/
def base64Line : Nat := 70

/-- Lines of base 64, each with an end; `n` bounds their number. -/
def base64Lines : Nat → Bytes → Bytes
  | 0, _ => []
  | n + 1, b =>
    if b.isEmpty then [] else b.take base64Line ++ Bytes.newline :: base64Lines n (b.drop base64Line)

/-- Bytes in base 64, on one line if they fit. -/
def base64 (s : Bytes) : List Char :=
  let b := Base64.encode s
  Utf8.decode (if b.length < base64Line then b else base64Lines (b.length + 1) b)

/-- A string, with the end of its line. -/
def scalar (indent : Nat) (s : Bytes) : Bytes :=
  if Utf8.valid s then
    let cs := Utf8.decode s
    encode (textScalar indent (styleOf cs) cs)
  else
    let cs := base64 s
    text "!!binary " ++ encode (textScalar indent (if cs.contains '\n' then .literal else .plain) cs)

/-- What stands under a name. -/
inductive Entry where
  | string (s : Bytes)
  | strings (items : List Bytes)
  | flag (b : Bool)
deriving DecidableEq, Repr

/-- The indentation of an item's further lines. -/
def itemIndent : Nat := step + 2

/-- An item of a list. -/
def item (s : Bytes) : Bytes := encode (List.replicate step ' ') ++ text "- " ++ scalar itemIndent s

def entry (name : String) : Entry → Bytes
  | .string s => text name ++ text ": " ++ scalar step s
  | .strings [] => text name ++ text ": []\n"
  | .strings (s :: rest) => text name ++ text ":\n" ++ (s :: rest).flatMap item
  | .flag b => text name ++ text (if b then ": true\n" else ": false\n")

def document (entries : List (String × Entry)) : Bytes := entries.flatMap (fun e => entry e.1 e.2)

end DartReach.Yaml.Writer
