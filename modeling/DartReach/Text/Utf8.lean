import DartReach.Text.Bytes

/-!
# UTF-8

Reading bytes as characters. A byte that starts no valid encoding is a symbol of its own, so that
every byte string can be read to its end; such a symbol counts as U+FFFD where a character is needed.
Overlong forms, surrogates and values above U+10FFFF are not valid encodings.
-/

namespace DartReach.Utf8

set_option autoImplicit false

/-- What stands for a byte that belongs to no character. -/
def replacement : Char := '�'

/-- One symbol of a byte string: a character, or a byte that starts none. -/
structure Symbol where
  /-- The character; `none` for a byte that starts no valid encoding. -/
  char? : Option Char
  /-- Number of bytes the symbol takes. -/
  width : Nat
deriving DecidableEq, Repr

def Symbol.char (u : Symbol) : Char := u.char?.getD replacement

def isTail (b : UInt8) : Bool := 0x80 ≤ b && b ≤ 0xBF

/-- Least second byte after `a`: overlong forms start below it. -/
def secondMin (a : UInt8) : UInt8 :=
  if a = 0xE0 then 0xA0 else if a = 0xF0 then 0x90 else 0x80

/-- Greatest second byte after `a`: surrogates and values above U+10FFFF start above it. -/
def secondMax (a : UInt8) : UInt8 :=
  if a = 0xED then 0x9F else if a = 0xF4 then 0x8F else 0xBF

def tailBits (b : UInt8) : Nat := b.toNat % 64

/-- The character encoded in two bytes or more by `a` and the bytes behind it, with its width. -/
def long? (a : UInt8) (rest : Bytes) : Option (Char × Nat) :=
  if 0xC2 ≤ a && a ≤ 0xDF then
    match rest with
    | b :: _ =>
      if isTail b then some (Char.ofNat (a.toNat % 32 * 64 + tailBits b), 2) else none
    | _ => none
  else if 0xE0 ≤ a && a ≤ 0xEF then
    match rest with
    | b :: c :: _ =>
      if secondMin a ≤ b && b ≤ secondMax a && isTail c then
        some (Char.ofNat ((a.toNat % 16 * 64 + tailBits b) * 64 + tailBits c), 3)
      else none
    | _ => none
  else if 0xF0 ≤ a && a ≤ 0xF4 then
    match rest with
    | b :: c :: d :: _ =>
      if secondMin a ≤ b && b ≤ secondMax a && isTail c && isTail d then
        some (Char.ofNat (((a.toNat % 8 * 64 + tailBits b) * 64 + tailBits c) * 64 + tailBits d), 4)
      else none
    | _ => none
  else none

/-- The first symbol of a byte string that begins with `a`. -/
def first (a : UInt8) (rest : Bytes) : Symbol :=
  if a < 0x80 then ⟨some (Char.ofNat a.toNat), 1⟩
  else
    match long? a rest with
    | some (c, width) => ⟨some c, width⟩
    | none => ⟨none, 1⟩

/-- Splits off the first symbol; `none` at the end. -/
def next? : Bytes → Option (Symbol × Bytes)
  | [] => none
  | a :: rest =>
    let u := first a rest
    some (u, rest.drop (u.width - 1))

theorem next?_length {s rest : Bytes} {u : Symbol} (h : next? s = some (u, rest)) :
    rest.length < s.length := by
  cases s with
  | nil => simp [next?] at h
  | cons a s =>
    simp only [next?, Option.some.injEq, Prod.mk.injEq] at h
    rw [← h.2]
    simp only [List.length_drop, List.length_cons]
    omega

/-- Reads to the end, with the symbols read before in reverse order. -/
def symbolsOnto (seen : List Symbol) (s : Bytes) : List Symbol :=
  match h : next? s with
  | none => seen.reverse
  | some (u, rest) =>
    have := next?_length h
    symbolsOnto (u :: seen) rest
termination_by s.length

def symbols (s : Bytes) : List Symbol := symbolsOnto [] s

/-- The characters of a byte string; a byte that belongs to none is U+FFFD. -/
def decode (s : Bytes) : List Char := (symbols s).map Symbol.char

/-- Whether every byte belongs to a character. -/
def valid (s : Bytes) : Bool :=
  match h : next? s with
  | none => true
  | some (u, rest) =>
    have := next?_length h
    u.char?.isSome && valid rest
termination_by s.length

end DartReach.Utf8
