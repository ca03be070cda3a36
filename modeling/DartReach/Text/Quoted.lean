import DartReach.Text.Printable
import DartReach.Text.Utf8

/-!
# Quoted text

Any byte string between double quotes on one line. Printable characters stand for themselves, the rest
is written with a backslash: `\n` and its like, `\x` and two digits for other bytes, `\u` and `\U`
for characters that cannot be shown.
-/

namespace DartReach.Quoted

set_option autoImplicit false

def hexDigit (n : Nat) : Char := Nat.digitChar (n % 16)

/-- The last `width` hexadecimal digits of a number. -/
def hex : (width n : Nat) → List Char
  | 0, _ => []
  | width + 1, n => hex width (n / 16) ++ [hexDigit n]

def escape (c : Char) : List Char :=
  if c = '"' ∨ c = '\\' then ['\\', c]
  else if isPrintable c then [c]
  else
    match c.toNat with
    | 0x07 => ['\\', 'a']
    | 0x08 => ['\\', 'b']
    | 0x0C => ['\\', 'f']
    | 0x0A => ['\\', 'n']
    | 0x0D => ['\\', 'r']
    | 0x09 => ['\\', 't']
    | 0x0B => ['\\', 'v']
    | n =>
      if n < 0x20 ∨ n = 0x7F then ['\\', 'x'] ++ hex 2 n
      else if n < 0x10000 then ['\\', 'u'] ++ hex 4 n
      else ['\\', 'U'] ++ hex 8 n

/-- The symbols of a byte string as they are written between the quotes. -/
def body : (s : Bytes) → List Utf8.Symbol → List Char
  | _, [] => []
  | s, sym :: rest =>
    let out :=
      match sym.char? with
      | some c => escape c
      | none => ['\\', 'x'] ++ hex 2 ((s.headD 0).toNat)
    out ++ body (s.drop sym.width) rest

def quote (s : Bytes) : Bytes := encode (['"'] ++ body s (Utf8.symbols s) ++ ['"'])

end DartReach.Quoted
