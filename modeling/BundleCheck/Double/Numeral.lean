import BundleCheck.Double.Rounding
import BundleCheck.Text.Numeral

/-! # Reading decimal fractions

A numeral is an optional sign, digits with at most one point among, before or after them, and
an optional exponent with its own sign. It denotes the nearest 64-bit number. -/

namespace BundleCheck.Double

open Text

/-- The sign in front of a numeral, and what follows it. -/
def signOf : List Char → Bool × List Char
  | '-' :: rest => (true, rest)
  | '+' :: rest => (false, rest)
  | cs => (false, cs)

/-- The exponent written after the digits; none is zero. -/
def exponent? : List Char → Option Int
  | [] => some 0
  | c :: cs =>
      if c == 'e' || c == 'E' then
        let (negative, digits) := signOf cs
        (digits? 10 digits).map fun n => if negative then -(n : Int) else n
      else none

/-- Reads a numeral. The result is infinite when the number is too large. -/
def ofNumeral? (cs : List Char) : Option Double :=
  let (negative, unsigned) := signOf cs
  let whole := unsigned.takeWhile isDigit
  let afterWhole := unsigned.dropWhile isDigit
  let (fraction, afterFraction) :=
    match afterWhole with
    | '.' :: rest => (rest.takeWhile isDigit, rest.dropWhile isDigit)
    | _ => ([], afterWhole)
  match digits? 10 (whole ++ fraction), exponent? afterFraction with
  | some coefficient, some e => some (ofDecimal negative coefficient (e - fraction.length))
  | _, _ => none

end BundleCheck.Double
