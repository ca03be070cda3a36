/-!
# Numbers with 53 significant bits

Positive numbers `m * 2 ^ q` with `m < 2 ^ 53`, and the nearest of them to a given fraction. Everything is
exact arithmetic on natural numbers and integers.
-/

namespace DartReach

set_option autoImplicit false

/-- The quotient rounded to the nearest whole number, a half to the even one. -/
def roundDiv (num den : Nat) : Nat :=
  let q := num / den
  let r := num % den
  if 2 * r < den then q
  else if den < 2 * r then q + 1
  else if q % 2 = 0 then q
  else q + 1

/-- The number `mantissa * 2 ^ exponent`. -/
structure Binary64 where
  mantissa : Nat
  exponent : Int
deriving DecidableEq, Repr

namespace Binary64

/-- Least exponent: below it numbers lose precision. -/
def minExponent : Int := -1074

def maxExponent : Int := 971

def toFraction (x : Binary64) : Nat × Nat :=
  if 0 ≤ x.exponent then (x.mantissa * Nat.pow 2 x.exponent.toNat, 1)
  else (x.mantissa, Nat.pow 2 (-x.exponent).toNat)

/-- `num / den` divided by `2 ^ q`, rounded. -/
def scaled (num den : Nat) (q : Int) : Nat :=
  if 0 ≤ q then roundDiv num (den * Nat.pow 2 q.toNat) else roundDiv (num * Nat.pow 2 (-q).toNat) den

/-- Greatest `e` with `2 ^ e ≤ num / den`. -/
def log2Floor (num den : Nat) : Int :=
  let e : Int := (Nat.log2 num : Int) - (Nat.log2 den : Int)
  let fits (e : Int) : Bool :=
    if 0 ≤ e then den * Nat.pow 2 e.toNat ≤ num else den ≤ num * Nat.pow 2 (-e).toNat
  if fits e then e else e - 1

/-- The nearest number to `num / den`, a tie to the even mantissa; `none` beyond the greatest. -/
def nearest? (num den : Nat) : Option Binary64 :=
  if num = 0 then some ⟨0, minExponent⟩
  else
    let q := max (log2Floor num den - 52) minExponent
    let m := scaled num den q
    let x : Binary64 := if m = Nat.pow 2 53 then ⟨Nat.pow 2 52, q + 1⟩ else ⟨m, q⟩
    if maxExponent < x.exponent then none else some x

/-- The nearest number as a fraction; numbers beyond the greatest stay as they are. -/
def round (num den : Nat) : Nat × Nat :=
  match nearest? num den with
  | some x => x.toFraction
  | none => (num, den)

end Binary64

end DartReach
