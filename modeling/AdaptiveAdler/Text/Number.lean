/-! Numbers as text.

A decimal number with a bound is written as an optional plus sign and one or more
ASCII digits, with any number of leading zeros. Nothing else is one: no minus sign,
no separator, no digit of another script, no sign alone. A number at or above the
bound is refused rather than cut off. Checksums are written in hexadecimal, and
never read. -/
namespace AdaptiveAdler.Number

/-- The number that ASCII digits denote, most significant first. -/
def ofDigits (digits : List Char) : Nat :=
  digits.foldl (fun n c => 10 * n + (c.toNat - '0'.toNat)) 0

/-- A text without one leading plus sign. -/
def dropSign : List Char → List Char
  | '+' :: rest => rest
  | text => text

/-- The number below `bound` that a text denotes. -/
def read? (bound : Nat) (text : List Char) : Option Nat :=
  let digits := dropSign text
  if digits.isEmpty || !digits.all Char.isDigit then none
  else if ofDigits digits < bound then some (ofDigits digits) else none

/-- A word as eight hexadecimal digits in upper case, behind a mark. -/
def hexWord (w : UInt32) : String :=
  let shifts : List UInt32 := [28, 24, 20, 16, 12, 8, 4, 0]
  let digits := shifts.map fun shift => ((w >>> shift) % 16).toNat.digitChar.toUpper
  "0x" ++ String.ofList digits

end AdaptiveAdler.Number
