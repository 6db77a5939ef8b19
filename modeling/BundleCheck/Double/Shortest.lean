import BundleCheck.Double.Rounding

/-! # Shortest decimal text

A finite number is written with the fewest digits that read back as the same number, and of
those texts with the one nearest to it. All arithmetic is exact. -/

namespace BundleCheck.Double

/-! ## Shortest digits -/

/-- Which of two equally near decimals is taken. -/
inductive Tie
  | even
  | up
  deriving DecidableEq

def timesPower (base num den : Nat) (power : Int) : Nat × Nat :=
  if 0 ≤ power then (num * Nat.pow base power.toNat, den)
  else (num, den * Nat.pow base (-power).toNat)

def ratioLt (a b : Nat × Nat) : Bool :=
  a.1 * b.2 < b.1 * a.2

/-- `coefficient · 10 ^ power` lies among the reals that round to `m · 2 ^ e`. The ends of that
interval belong to it exactly when `m` is even. -/
def readsBack (m : Nat) (e : Int) (coefficient : Nat) (power : Int) : Bool :=
  let point := timesPower 10 coefficient 1 power
  let below := if m == Nat.pow 2 52 && e > minExponent then 4 * m - 1 else 4 * m - 2
  let low := timesPower 2 below 1 (e - 2)
  let high := timesPower 2 (4 * m + 2) 1 (e - 2)
  if m % 2 == 0 then !ratioLt point low && !ratioLt high point
  else ratioLt low point && ratioLt point high

/-- The number of digits before the decimal point of `m · 2 ^ e`, which is positive; zero or
less when the first digit stands after the point. -/
def pointPosition (m : Nat) (e : Int) : Int :=
  let value := timesPower 2 m 1 e
  let guess : Int := ((m.log2 + e) * 30103).fdiv 100000
  let candidates := [guess, guess + 1, guess + 2]
  (candidates.find? fun k => ratioLt value (timesPower 10 1 1 k)).getD (guess + 3)

/-- The decimal nearest to `m · 2 ^ e` among those of at most `digits` digits that read back,
as coefficient and power of ten. -/
def decimalOf? (tie : Tie) (m : Nat) (e : Int) (digits : Nat) : Option (Nat × Int) :=
  let power := pointPosition m e - digits
  let binary := timesPower 2 m 1 e
  let scaled := timesPower 10 binary.1 binary.2 (-power)
  let low := scaled.1 / scaled.2
  let rest := scaled.1 % scaled.2
  let nearest :=
    if 2 * rest < scaled.2 then low
    else if scaled.2 < 2 * rest then low + 1
    else
      match tie with
      | .even => if low % 2 == 0 then low else low + 1
      | .up => low + 1
  match readsBack m e low power, readsBack m e (low + 1) power with
  | true, true => some (nearest, power)
  | true, false => some (low, power)
  | false, true => some (low + 1, power)
  | false, false => none

/-- The shortest decimal that reads back as `m · 2 ^ e`. Seventeen digits always suffice. -/
def shortest (tie : Tie) (m : Nat) (e : Int) : Nat × Int :=
  ((List.range 17).findSome? fun i => decimalOf? tie m e (i + 1)).getD (m, e)

/-! ## Layout -/

structure Layout where
  tie : Tie
  /-- Is a number with this many digits before the point written without an exponent? -/
  positional : Int → Bool
  /-- What follows a whole number. -/
  wholeEnd : List Char
  /-- What precedes an exponent that is not negative. -/
  plus : List Char
  infinity : List Char
  nan : List Char

/-- Digits without an exponent, the point after the first `k` of them. -/
def positionalText (wholeEnd digits : List Char) (k : Int) : List Char :=
  if k ≤ 0 then '0' :: '.' :: List.replicate (-k).toNat '0' ++ digits
  else
    let k := k.toNat
    if digits.length ≤ k then digits ++ List.replicate (k - digits.length) '0' ++ wholeEnd
    else digits.take k ++ '.' :: digits.drop k

/-- Digits with an exponent, the point after the first of them. -/
def scientificText (plus digits : List Char) (exponent : Int) : List Char :=
  let fraction := digits.drop 1
  digits.take 1 ++ (if fraction.isEmpty then [] else '.' :: fraction) ++ 'e' ::
    (if exponent < 0 then ['-'] else plus) ++ Nat.toDigits 10 exponent.natAbs

def Layout.magnitude (layout : Layout) (m : Nat) (e : Int) : List Char :=
  if m = 0 then '0' :: layout.wholeEnd
  else
    let (coefficient, power) := shortest layout.tie m e
    let written := Nat.toDigits 10 coefficient
    let digits := (written.reverse.dropWhile (· == '0')).reverse
    let k := written.length + power
    if layout.positional k then positionalText layout.wholeEnd digits k
    else scientificText layout.plus digits (k - 1)

def Layout.text (layout : Layout) : Double → List Char
  | .nan => layout.nan
  | .infinite negative => (if negative then ['-'] else []) ++ layout.infinity
  | .finite negative m e => (if negative then ['-'] else []) ++ layout.magnitude m e

/-- Plain notation: never an exponent, and whole numbers without a point. -/
def plain : Layout where
  tie := .up
  positional := fun _ => true
  wholeEnd := []
  plus := []
  infinity := "inf".toList
  nan := "NaN".toList

end BundleCheck.Double
