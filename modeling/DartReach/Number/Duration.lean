import DartReach.Text.Bytes

/-!
# Spans of time in words

A span is written in the largest unit below it, with as many decimals as it has.
-/

namespace DartReach.Duration

set_option autoImplicit false

/-- A number of units of `10 ^ places` parts each, without zeros at the end of its decimals. -/
def units (places parts : Nat) : Bytes :=
  let digits := Nat.toDigits 10 (parts % Nat.pow 10 places)
  let decimals := List.replicate (places - digits.length) '0' ++ digits
  let shown := (decimals.reverse.dropWhile (· = '0')).reverse
  decimal (parts / Nat.pow 10 places) ++ (if shown.isEmpty ∨ places = 0 then [] else encode ('.' :: shown))

/-- A number of nanoseconds in words. -/
def render (nanoseconds : Nat) : Bytes :=
  if nanoseconds = 0 then text "0s"
  else if nanoseconds < Nat.pow 10 3 then units 0 nanoseconds ++ text "ns"
  else if nanoseconds < Nat.pow 10 6 then units 3 nanoseconds ++ text "µs"
  else if nanoseconds < Nat.pow 10 9 then units 6 nanoseconds ++ text "ms"
  else
    let minutes := nanoseconds / (60 * Nat.pow 10 9)
    (if minutes < 60 then [] else decimal (minutes / 60) ++ text "h")
      ++ (if minutes = 0 then [] else decimal (minutes % 60) ++ text "m")
      ++ units 9 (nanoseconds % (60 * Nat.pow 10 9)) ++ text "s"

end DartReach.Duration
