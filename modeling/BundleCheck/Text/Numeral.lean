/-! # Numerals -/

namespace BundleCheck.Text

/-! ## Digits -/

def digitValue? (base : Nat) (c : Char) : Option Nat :=
  let code := c.toNat
  let value? :=
    if 0x30 ≤ code && code ≤ 0x39 then some (code - 0x30)
    else if 0x61 ≤ code && code ≤ 0x66 then some (code - 0x61 + 10)
    else if 0x41 ≤ code && code ≤ 0x46 then some (code - 0x41 + 10)
    else none
  value?.filter (· < base)

def isDigit (c : Char) : Bool :=
  (digitValue? 10 c).isSome

/-- The number that digits continue from `acc`. -/
def digitsFrom? (base : Nat) : Nat → List Char → Option Nat
  | acc, [] => some acc
  | acc, c :: cs =>
      match digitValue? base c with
      | some d => digitsFrom? base (acc * base + d) cs
      | none => none

/-- The number written by digits alone; there must be at least one. -/
def digits? (base : Nat) (cs : List Char) : Option Nat :=
  if cs.isEmpty then none else digitsFrom? base 0 cs

/-! ## Whole numbers of a given width -/

/-- Numbers of `bits` binary digits are below this one. -/
def wordSize (bits : Nat) : Nat :=
  Nat.pow 2 bits

/-- A decimal number of `bits` binary digits, with an optional plus sign. -/
def natural? (bits : Nat) (cs : List Char) : Option Nat :=
  let unsigned :=
    match cs with
    | '+' :: rest => rest
    | _ => cs
  (digits? 10 unsigned).filter (· < wordSize bits)

def decimal (n : Nat) : List Char :=
  Nat.toDigits 10 n

end BundleCheck.Text
