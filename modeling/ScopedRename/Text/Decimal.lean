/-! Decimal numerals as callers write them: an optional plus sign and at least one digit. -/

namespace ScopedRename.Text

def digitsValue? : Nat → List Char → Option Nat
  | value, [] => some value
  | value, c :: rest => if c.isDigit then digitsValue? (10 * value + (c.toNat - '0'.toNat)) rest else none

def decimal? (limit : Nat) (numeral : List Char) : Option Nat :=
  let digits := match numeral with
    | '+' :: rest => rest
    | _ => numeral
  if digits.isEmpty then none else (digitsValue? 0 digits).filter (· < limit)

end ScopedRename.Text
