import DartReach.Number.Binary64
import DartReach.Text.Bytes

/-!
# The summary on the terminal

A small table of counts, and what they mean in words. Numbers are written for people: digits in groups of
three, sizes with one or two digits and a unit.
-/

namespace DartReach.Summary

set_option autoImplicit false

/-- Digits in groups of three from the right, given and returned last first. -/
def groupDigits : List Char → List Char
  | a :: b :: c :: d :: rest => a :: b :: c :: ',' :: groupDigits (d :: rest)
  | ds => ds

/-- A count with a comma before every three digits. -/
def count (n : Nat) : Bytes := encode (groupDigits (Nat.toDigits 10 n).reverse).reverse

def units : List String := ["B", "kB", "MB", "GB", "TB", "PB", "EB"]

/--
The least size counted in each unit above the first. They are the powers of 1000, less a few numbers which
a logarithm of 53 bits cannot tell from the power.
-/
def unitStarts : List Nat :=
  [1000, Nat.pow 1000 2, Nat.pow 1000 3, Nat.pow 1000 4, Nat.pow 1000 5 - 4, Nat.pow 1000 6 - 4928]

/-- Tenths of a unit in a size, rounded; every step is rounded to 53 bits. -/
def tenths (size power : Nat) : Nat :=
  let whole := Binary64.round size 1
  let value := Binary64.round whole.1 (whole.2 * power)
  let ten := Binary64.round (value.1 * 10) value.2
  let sum := Binary64.round (2 * ten.1 + ten.2) (2 * ten.2)
  sum.1 / sum.2

/-- A size for people: one decimal below ten units, none above, a half to the even number. -/
def size (n : Nat) : Bytes :=
  if n < 10 then decimal n ++ text " B"
  else
    let e := (unitStarts.filter (· ≤ n)).length
    let k := tenths n (Nat.pow 1000 e)
    let number :=
      if k < 100 then decimal (k / 10) ++ text "." ++ decimal (k % 10)
      else decimal (roundDiv k 10)
    number ++ text " " ++ text (units.getD e "B")

def upper (s : Bytes) : Bytes := s.map (fun b => if 0x61 ≤ b && b ≤ 0x7A then b - 0x20 else b)

def cell (width : Nat) (s : Bytes) : Bytes := s ++ List.replicate (width - s.length) 0x20

def row (w1 w2 : Nat) (r : Bytes × Bytes) : Bytes :=
  text "| " ++ cell w1 r.1 ++ text " | " ++ cell w2 r.2 ++ text " |\n"

def rule (w1 w2 : Nat) : Bytes :=
  text "+" ++ List.replicate (w1 + 2) 0x2D ++ text "+" ++ List.replicate (w2 + 2) 0x2D ++ text "+\n"

def width (cells : List Bytes) : Nat := (cells.map List.length).foldl max 0

/-- A table of two columns with a heading and a last line set off. -/
def table (head : Bytes × Bytes) (rows : List (Bytes × Bytes)) (foot : Bytes × Bytes) : Bytes :=
  let all := head :: rows ++ [foot]
  let w1 := width (all.map (·.1))
  let w2 := width (all.map (·.2))
  rule w1 w2 ++ row w1 w2 head ++ rule w1 w2 ++ rows.flatMap (row w1 w2) ++ rule w1 w2 ++ row w1 w2 foot
    ++ rule w1 w2

inductive Color where
  | red
  | green
  | yellow
  | cyan
deriving DecidableEq, Repr

def Color.code : Color → Nat
  | .red => 31
  | .green => 32
  | .yellow => 33
  | .cyan => 36

/-- A text in a colour, if colours are on. -/
def paint (colored : Bool) (c : Color) (s : Bytes) : Bytes :=
  if colored then text "\x1b[" ++ decimal c.code ++ text "m" ++ s ++ text "\x1b[0m" else s

structure Figures where
  files : Nat
  visited : Nat
  unused : Nat
  failures : Nat
  /-- Whether there was an entry point. -/
  hasEntries : Bool
  bytes : Nat
  /-- Where the report went. -/
  output : Bytes
deriving DecidableEq, Repr

def figuresTable (f : Figures) : Bytes :=
  table (text "FILES", text "COUNT")
    [(text "Total", count f.files), (text "Reachable", count f.visited),
      (text "Unused", count f.unused), (text "Unreadable", count f.failures)]
    (text "SCANNED", upper (size f.bytes))

def render (colored : Bool) (f : Figures) : Bytes :=
  figuresTable f
  ++ (if f.hasEntries then []
    else paint colored .red (text "Warning: no entry point found, all " ++ decimal f.files
      ++ text " files are reported as unused\n"))
  ++ (if 0 < f.unused then
      paint colored .yellow (text "Found " ++ decimal f.unused ++ text " unused files\n")
    else paint colored .green (text "No unused files found\n"))
  ++ paint colored .cyan (text "Results written to " ++ f.output ++ text "\n")

end DartReach.Summary
