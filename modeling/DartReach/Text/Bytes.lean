/-!
# Byte strings

File names, file contents and everything the program prints are byte strings: none of them has to
be valid text. A byte string is a list, so that every function on it is structural, and byte order
is the lexicographic order of lists.
-/

namespace DartReach

set_option autoImplicit false

/-- A string of bytes, not necessarily valid UTF-8. -/
abbrev Bytes := List UInt8

instance : LawfulBEq Bytes := inferInstanceAs (LawfulBEq (List UInt8))

def encode (cs : List Char) : Bytes := cs.flatMap String.utf8EncodeChar

def text (s : String) : Bytes := encode s.toList

def decimal (n : Nat) : Bytes := encode (Nat.toDigits 10 n)

namespace Bytes

/-- The byte `/`, which divides the segments of a path. -/
def slash : UInt8 := 0x2F

def newline : UInt8 := 0x0A

/-- Byte order as a Boolean test. -/
def le (a b : Bytes) : Bool := decide (a ≤ b)

/-- Ascending byte order; equal strings keep their number. -/
def sort (xs : List Bytes) : List Bytes := xs.mergeSort le

/-- Each run of equal neighbours once. -/
def squeeze : List Bytes → List Bytes
  | [] => []
  | [x] => [x]
  | x :: y :: rest => if x = y then squeeze (y :: rest) else x :: squeeze (y :: rest)

/-- The strings as a set: in strictly ascending byte order. -/
def sortUnique (xs : List Bytes) : List Bytes := squeeze (sort xs)

/-- What follows `start` in `s`, if `s` begins with it. -/
def after? : (start s : Bytes) → Option Bytes
  | [], s => some s
  | _ :: _, [] => none
  | b :: start, c :: s => if b = c then after? start s else none

def endsWith (s tail : Bytes) : Bool := tail.isSuffixOf s

def startsWith (s start : Bytes) : Bool := start.isPrefixOf s

/-- Offset of the first occurrence of `needle`. -/
def indexOf? (needle : Bytes) : Bytes → Option Nat
  | [] => if needle = [] then some 0 else none
  | s@(_ :: rest) => if s.startsWith needle then some 0 else (indexOf? needle rest).map (· + 1)

def lastIndexOf? (needle : Bytes) : Bytes → Option Nat
  | [] => if needle = [] then some 0 else none
  | s@(_ :: rest) =>
    match lastIndexOf? needle rest with
    | some i => some (i + 1)
    | none => if s.startsWith needle then some 0 else none

/-- The pieces between occurrences of `sep`; there is always one piece more than separators. -/
def split (sep : UInt8) : Bytes → List Bytes
  | [] => [[]]
  | b :: rest =>
    if b = sep then [] :: split sep rest
    else
      match split sep rest with
      | [] => [[b]]
      | piece :: pieces => (b :: piece) :: pieces

def join (sep : Bytes) (pieces : List Bytes) : Bytes := List.intercalate sep pieces

/-- The text with each `\r\n` as a plain line end. -/
def unixLines : Bytes → Bytes
  | [] => []
  | [b] => [b]
  | 0x0D :: 0x0A :: rest => 0x0A :: unixLines rest
  | b :: rest => b :: unixLines rest

/-- Drops from the end every byte that satisfies `p`. -/
def dropEndWhile (p : UInt8 → Bool) (s : Bytes) : Bytes := (s.reverse.dropWhile p).reverse

end Bytes

end DartReach
