/-!
# Dates and times in a document

A scalar is a timestamp if it is a date, alone or with a time of day behind it.
-/

namespace DartReach.Yaml.Timestamp

set_option autoImplicit false

def daysIn (year month : Nat) : Nat :=
  if month = 2 then
    if year % 4 = 0 && (year % 100 ≠ 0 || year % 400 = 0) then 29 else 28
  else if month = 4 || month = 6 || month = 9 || month = 11 then 30
  else 31

def digit (c : Char) : Nat := c.toNat - 0x30

/-- Reads a number of one or two digits. -/
def short? : List Char → Option (Nat × List Char)
  | a :: b :: rest =>
    if a.isDigit then
      if b.isDigit then some (digit a * 10 + digit b, rest) else some (digit a, b :: rest)
    else none
  | [a] => if a.isDigit then some (digit a, []) else none
  | [] => none

def sign? (c : Char) : List Char → Option (List Char)
  | d :: rest => if c = d then some rest else none
  | [] => none

def date? : List Char → Option (List Char)
  | a :: b :: c :: d :: rest =>
    if a.isDigit && b.isDigit && c.isDigit && d.isDigit then do
      let year := ((digit a * 10 + digit b) * 10 + digit c) * 10 + digit d
      let (month, rest) ← short? (← sign? '-' rest)
      let (day, rest) ← short? (← sign? '-' rest)
      if 1 ≤ month && month ≤ 12 && 1 ≤ day && day ≤ daysIn year month then some rest else none
    else none
  | _ => none

/-- Goes past a fraction of a second. -/
def dropFraction : List Char → List Char
  | c :: d :: rest =>
    if (c = '.' || c = ',') && d.isDigit then (d :: rest).dropWhile Char.isDigit else c :: d :: rest
  | cs => cs

def time? (cs : List Char) : Option (List Char) := do
  let (hour, cs) ← short? cs
  let (minute, cs) ← short? (← sign? ':' cs)
  let (second, cs) ← short? (← sign? ':' cs)
  if hour < 24 && minute < 60 && second < 60 then some (dropFraction cs) else none

def isZone : List Char → Bool
  | ['Z'] => true
  | [s, a, b, ':', c, d] =>
    (s = '+' || s = '-') && a.isDigit && b.isDigit && c.isDigit && d.isDigit
      && digit a * 10 + digit b ≤ 24 && digit c * 10 + digit d ≤ 60
  | _ => false

/-- Whether a scalar is a timestamp. -/
def matchesText (cs : List Char) : Bool :=
  match date? cs with
  | none => false
  | some [] => true
  | some (' ' :: rest) => time? (rest.dropWhile (· = ' ')) = some []
  | some (c :: rest) => (c = 'T' || c = 't') && ((time? rest).map isZone).getD false

end DartReach.Yaml.Timestamp
