import DartReach.Number.Decimal
import DartReach.Yaml.Timestamp

/-!
# What plain scalars mean

A scalar without quotes is null, a truth value, a number or a timestamp if it is written like one, and a
string otherwise.
-/

namespace DartReach.Yaml

set_option autoImplicit false

inductive FloatValue where
  | nan
  | infinite (negative : Bool)
  | finite (negative : Bool) (magnitude : Binary64)
deriving DecidableEq, Repr

def FloatValue.decimal : FloatValue → Bytes
  | .nan => text "NaN"
  | .infinite negative => text (if negative then "-Inf" else "+Inf")
  | .finite negative x =>
    (if negative then text "-" else []) ++ Decimal.positional (Decimal.shortest x)

def FloatValue.isZero : FloatValue → Bool
  | .finite _ x => x.mantissa = 0
  | _ => false

inductive ScalarValue where
  | null
  | bool (b : Bool)
  | int (n : Int)
  | float (x : FloatValue)
  | timestamp
  | string
deriving DecidableEq, Repr

def ScalarValue.tag : ScalarValue → String
  | .null => "!!null"
  | .bool _ => "!!bool"
  | .int _ => "!!int"
  | .float _ => "!!float"
  | .timestamp => "!!timestamp"
  | .string => "!!str"

namespace Plain

/-- Scalars of fixed meaning. -/
def word? (s : String) : Option ScalarValue :=
  match s with
  | "" | "~" | "null" | "Null" | "NULL" => some .null
  | "true" | "True" | "TRUE" => some (.bool true)
  | "false" | "False" | "FALSE" => some (.bool false)
  | ".nan" | ".NaN" | ".NAN" => some (.float .nan)
  | ".inf" | ".Inf" | ".INF" | "+.inf" | "+.Inf" | "+.INF" => some (.float (.infinite false))
  | "-.inf" | "-.Inf" | "-.INF" => some (.float (.infinite true))
  | _ => none

/-- The value of a digit or letter in a base up to 36. -/
def digitValue? (base : Nat) (c : Char) : Option Nat :=
  let v :=
    if c.isDigit then c.toNat - 0x30
    else if 'a' ≤ c && c ≤ 'z' then c.toNat - 0x57
    else if 'A' ≤ c && c ≤ 'Z' then c.toNat - 0x37
    else base
  if v < base then some v else none

def digits? (base : Nat) : List Char → Nat → Option Nat
  | [], acc => some acc
  | c :: cs, acc =>
    match digitValue? base c with
    | some d => digits? base cs (acc * base + d)
    | none => none

/-- The value of one or more digits in a base. -/
def number? (base : Nat) (cs : List Char) : Option Nat :=
  if cs.isEmpty then none else digits? base cs 0

/-- The value of digits whose base shows at their start. -/
def basedNumber? : List Char → Option Nat
  | '0' :: b :: c :: rest =>
    if b = 'b' || b = 'B' then digits? 2 (c :: rest) 0
    else if b = 'o' || b = 'O' then digits? 8 (c :: rest) 0
    else if b = 'x' || b = 'X' then digits? 16 (c :: rest) 0
    else digits? 8 (b :: c :: rest) 0
  | '0' :: rest => digits? 8 rest 0
  | cs => number? 10 cs

/-- Splits off a sign; whether it is a minus. -/
def signOf : List Char → Bool × List Char
  | '-' :: rest => (true, rest)
  | '+' :: rest => (false, rest)
  | cs => (false, cs)

/-- A whole number of 64 bits, signed. -/
def signed? (value? : List Char → Option Nat) (cs : List Char) : Option Int :=
  let (negative, ds) := signOf cs
  match value? ds with
  | none => none
  | some n =>
    if negative then (if n ≤ Nat.pow 2 63 then some (-(n : Int)) else none)
    else if n < Nat.pow 2 63 then some n
    else none

/-- A whole number of 64 bits without sign. -/
def unsigned? (value? : List Char → Option Nat) (cs : List Char) : Option Int :=
  match value? cs with
  | some n => if n < Nat.pow 2 64 then some n else none
  | none => none

/-- A whole number behind a sign for its base. -/
def inBase? (base : Nat) (cs : List Char) : Option Int :=
  match signed? (number? base) cs with
  | some n => some n
  | none => unsigned? (number? base) cs

/-- A whole number; underscores were removed. -/
def int? (cs : List Char) : Option Int :=
  match signed? basedNumber? cs with
  | some n => some n
  | none => unsigned? basedNumber? cs

/-- A whole number in base two or eight whose sign stands behind the sign for the base. -/
def lateSign? : List Char → Option Int
  | '0' :: 'b' :: rest => inBase? 2 rest
  | '-' :: '0' :: 'b' :: rest => signed? (number? 2) ('-' :: rest)
  | '0' :: 'o' :: rest => inBase? 8 rest
  | '-' :: '0' :: 'o' :: rest => signed? (number? 8) ('-' :: rest)
  | _ => none

/-- The exponent at the end of a number; `none` if something else stands there. -/
def exponent? : List Char → Option Int
  | [] => some 0
  | e :: rest =>
    if e = 'e' || e = 'E' then
      let (negative, ds) := signOf rest
      match number? 10 ds with
      | some n => some (if negative then -(n : Int) else n)
      | none => none
    else none

/-- A decimal number without sign. -/
def magnitude? (cs : List Char) : Option Decimal.Digits :=
  let whole := cs.takeWhile Char.isDigit
  let rest := cs.dropWhile Char.isDigit
  let fraction := match rest with | '.' :: r => r.takeWhile Char.isDigit | _ => []
  let tail := match rest with | '.' :: r => r.dropWhile Char.isDigit | r => r
  if whole.isEmpty && fraction.isEmpty then none
  else
    match exponent? tail with
    | none => none
    | some e =>
      some ⟨((digits? 10 (whole ++ fraction) 0).getD 0), e - (fraction.length : Int)⟩

/-- A decimal number in range. -/
def float? (cs : List Char) : Option FloatValue :=
  let (negative, ds) := signOf cs
  match magnitude? ds with
  | none => none
  | some d =>
    match d.nearest? with
    | some x => some (.finite negative x)
    | none => none

/-- Whether underscores stand only between digits; `prev` tells whether a digit is before. -/
def underscoresOk : (prev : Bool) → List Char → Bool
  | _, [] => true
  | prev, '_' :: rest =>
    prev && (match rest with | d :: _ => d.isDigit | [] => false) && underscoresOk false rest
  | _, c :: rest => underscoresOk c.isDigit rest

/-- What a scalar means that starts with a point. -/
def fromPoint (cs : List Char) : ScalarValue :=
  if underscoresOk false cs then
    match float? (cs.filter (· ≠ '_')) with
    | some x => .float x
    | none => .string
  else .string

/-- What a scalar means that starts with a digit or a sign. -/
def fromDigit (timestamps : Bool) (cs : List Char) : ScalarValue :=
  if timestamps && Timestamp.matchesText cs then .timestamp
  else
    let bare := cs.filter (· ≠ '_')
    match int? bare with
    | some n => .int n
    | none =>
      match float? bare with
      | some x => .float x
      | none =>
        match lateSign? bare with
        | some n => .int n
        | none => .string

def meaning (timestamps : Bool) (cs : List Char) : ScalarValue :=
  match word? (String.ofList cs) with
  | some v => v
  | none =>
    match cs with
    | [] => .null
    | c :: _ =>
      if c = '.' then fromPoint cs
      else if c = '+' || c = '-' || c.isDigit then fromDigit timestamps cs
      else .string

end Plain

end DartReach.Yaml
