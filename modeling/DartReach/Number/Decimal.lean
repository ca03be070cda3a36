import DartReach.Number.Binary64
import DartReach.Text.Bytes

/-!
# Decimal numbers

Reading a decimal number to 53 bits, and the fewest digits that read back as a number: of the decimals of
that length the nearest one.
-/

namespace DartReach.Decimal

set_option autoImplicit false

/-- The number `digits * 10 ^ exponent`. -/
structure Digits where
  digits : Nat
  exponent : Int
deriving DecidableEq, Repr

def Digits.toFraction (d : Digits) : Nat × Nat :=
  if 0 ≤ d.exponent then (d.digits * Nat.pow 10 d.exponent.toNat, 1)
  else (d.digits, Nat.pow 10 (-d.exponent).toNat)

def length (n : Nat) : Nat := (Nat.toDigits 10 n).length

/--
The nearest number of 53 bits; `none` beyond the greatest. Numbers far out of range are not written out.
-/
def Digits.nearest? (d : Digits) : Option Binary64 :=
  if d.digits = 0 then Binary64.nearest? 0 1
  else
    let magnitude : Int := d.exponent + length d.digits
    if 400 < magnitude then none
    else if magnitude < -400 then Binary64.nearest? 0 1
    else Binary64.nearest? d.toFraction.1 d.toFraction.2

/-- The interval of fractions that round to a number, as numerators over one denominator. -/
structure Interval where
  low : Nat
  value : Nat
  high : Nat
  den : Nat
  /-- Whether the ends round to the number too. -/
  closed : Bool

def intervalOf (x : Binary64) : Interval :=
  let narrow := x.mantissa = Nat.pow 2 52 ∧ Binary64.minExponent < x.exponent
  let num := if 0 ≤ x.exponent then Nat.pow 2 x.exponent.toNat else 1
  let den := if 0 ≤ x.exponent then 1 else Nat.pow 2 (-x.exponent).toNat
  { low := (4 * x.mantissa - (if narrow then 1 else 2)) * num
    value := 4 * x.mantissa * num
    high := (4 * x.mantissa + 2) * num
    den := 4 * den
    closed := x.mantissa % 2 = 0 }

def Interval.contains (i : Interval) (f : Nat × Nat) : Bool :=
  let v := f.1 * i.den
  let low := i.low * f.2
  let high := i.high * f.2
  if i.closed then low ≤ v && v ≤ high else low < v && v < high

/-- The decimal with the last digit at `10 ^ exponent` that lies in an interval, if any: the nearest. -/
def Interval.atExponent? (i : Interval) (exponent : Int) : Option Digits :=
  let num := if 0 ≤ exponent then i.value else i.value * Nat.pow 10 (-exponent).toNat
  let den := if 0 ≤ exponent then i.den * Nat.pow 10 exponent.toNat else i.den
  let nearest : Digits := ⟨roundDiv num den, exponent⟩
  if i.contains nearest.toFraction then some nearest
  else
    let down : Digits := ⟨num / den, exponent⟩
    let up : Digits := ⟨num / den + 1, exponent⟩
    if i.contains down.toFraction then some down
    else if i.contains up.toFraction then some up
    else none

/-- The first decimal found on finer and finer grids. -/
def Interval.search (i : Interval) : Nat → Int → Digits
  | 0, exponent => ⟨0, exponent⟩
  | n + 1, exponent =>
    match i.atExponent? exponent with
    | some d => d
    | none => i.search n (exponent - 1)

/-- The fewest digits that read back as a number. -/
def shortest (x : Binary64) : Digits :=
  if x.mantissa = 0 then ⟨0, 0⟩
  else
    let i := intervalOf x
    let top : Int := (length (i.value / i.den) : Int)
    i.search 1100 top

/-- A decimal without exponent. -/
def positional (d : Digits) : Bytes :=
  if 0 ≤ d.exponent then decimal (d.digits * Nat.pow 10 d.exponent.toNat)
  else
    let places := (-d.exponent).toNat
    let fraction := Nat.toDigits 10 (d.digits % Nat.pow 10 places)
    decimal (d.digits / Nat.pow 10 places) ++ text "."
      ++ encode (List.replicate (places - fraction.length) '0' ++ fraction)

end DartReach.Decimal
