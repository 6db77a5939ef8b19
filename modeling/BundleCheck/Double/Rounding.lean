/-! # Binary floating point numbers

Numbers of 64 bits in exact form: a sign, a whole significand below `2 ^ 53` and a power of
two. Rounding goes to the nearest number, and of two equally near ones to the even one. -/

namespace BundleCheck

/-- A 64-bit floating point number; `finite` stands for `± significand · 2 ^ exponent`. -/
inductive Double
  | nan
  | infinite (negative : Bool)
  | finite (negative : Bool) (significand : Nat) (exponent : Int)
  deriving DecidableEq, Inhabited

namespace Double

def minExponent : Int := -1074

def maxExponent : Int := 971

def zero (negative : Bool) : Double := .finite negative 0 minExponent

/-! ## Rounding quotients -/

/-- `num / den` divided by `2 ^ e`, as numerator and denominator. -/
def dividedByPower (num den : Nat) (e : Int) : Nat × Nat :=
  if 0 ≤ e then (num, den * Nat.pow 2 e.toNat) else (num * Nat.pow 2 (-e).toNat, den)

/-- The whole number nearest to `num / den`; a half goes to the even neighbour. -/
def divHalfEven (num den : Nat) : Nat :=
  let quotient := num / den
  let rest := num % den
  if 2 * rest < den || (2 * rest == den && quotient % 2 == 0) then quotient else quotient + 1

/-- The exponent at which the quotient `num / den` has a significand of 53 bits, or the least
exponent if that is greater. -/
def exponentFor (num den : Nat) : Int :=
  let guess : Int := (num.log2 : Int) - (den.log2 : Int) - 52
  let scaled := dividedByPower num den guess
  max (if scaled.1 / scaled.2 < Nat.pow 2 52 then guess - 1 else guess) minExponent

/-- The number nearest to `± num / den`. -/
def ofRatio (negative : Bool) (num den : Nat) : Double :=
  if num = 0 then zero negative
  else
    let e := exponentFor num den
    let scaled := dividedByPower num den e
    let m := divHalfEven scaled.1 scaled.2
    let rounded := if m = Nat.pow 2 53 then (Nat.pow 2 52, e + 1) else (m, e)
    if rounded.2 > maxExponent then .infinite negative
    else .finite negative rounded.1 rounded.2

/-- The number nearest to `± coefficient · 10 ^ power`. Powers far outside the range of finite
numbers are answered without writing them out. -/
def ofDecimal (negative : Bool) (coefficient : Nat) (power : Int) : Double :=
  let magnitude : Int := (Nat.toDigits 10 coefficient).length + power
  if coefficient = 0 || magnitude < -330 then zero negative
  else if magnitude > 310 then .infinite negative
  else if 0 ≤ power then ofRatio negative (coefficient * Nat.pow 10 power.toNat) 1
  else ofRatio negative coefficient (Nat.pow 10 (-power).toNat)

/-! ## Classification -/

def isFinite : Double → Bool
  | .finite .. => true
  | _ => false

def isZero : Double → Bool
  | .finite _ m _ => m == 0
  | _ => false

/-- Equality of numbers: the two zeros are equal, and not-a-number equals itself. -/
def same (x y : Double) : Bool :=
  x == y || (x.isZero && y.isZero)

/-! ## Whole numbers from above -/

/-- The least whole number that is at least `m · 2 ^ e`. -/
def ceilScaled (m : Nat) (e : Int) : Nat :=
  if 0 ≤ e then m * Nat.pow 2 e.toNat
  else
    let unit := Nat.pow 2 (-e).toNat
    (m + unit - 1) / unit

end Double

end BundleCheck
