import BundleCheck.Double.Numeral
import BundleCheck.Double.Shortest
import BundleCheck.Yaml.Value

/-! # The meaning of scalars

A scalar written without quotes is null, a truth value, a number or else a text. -/

namespace BundleCheck.Yaml

open Text

/-- What a scalar stands for. A wide number is whole and has more than 64 bits. -/
inductive Meaning
  | null
  | bool (b : Bool)
  | int (n : Int)
  | wide (n : Int)
  | float (x : Double)
  | text (s : String)
  deriving DecidableEq, Inhabited

namespace Scalar

/-! ## Words -/

def isNullWord (cs : List Char) : Bool :=
  ["~", "null", "Null", "NULL"].any fun word => word.toList == cs

def boolOfWord? (cs : List Char) : Option Bool :=
  if ["true", "True", "TRUE"].any fun word => word.toList == cs then some true
  else if ["false", "False", "FALSE"].any fun word => word.toList == cs then some false
  else none

/-! ## Numbers -/

/-- A sign aside, a zero followed by more digits. Such a text is no number. -/
def isPaddedNumber (cs : List Char) : Bool :=
  let unsigned :=
    match cs with
    | '-' :: rest => rest
    | '+' :: rest => rest
    | _ => cs
  match unsigned with
  | '0' :: rest => !rest.isEmpty && rest.all isDigit
  | _ => false

/-- The number of digits in the base that their opening names, decimal without one. -/
def magnitude? (cs : List Char) : Option Nat :=
  match cs with
  | '0' :: 'x' :: digits => digits? 16 digits
  | '0' :: 'o' :: digits => digits? 8 digits
  | '0' :: 'b' :: digits => digits? 2 digits
  | _ => if isPaddedNumber cs then none else digits? 10 cs

def whole? (cs : List Char) : Option Int :=
  match cs with
  | '-' :: digits => (magnitude? digits).map fun n => -(n : Int)
  | '+' :: digits => (magnitude? digits).map Int.ofNat
  | _ => (magnitude? cs).map Int.ofNat

/-- A whole number of 64 bits, or of up to 128 bits. -/
def int? (cs : List Char) : Option Meaning :=
  match whole? cs with
  | some n =>
      if -(wordSize 63 : Int) ≤ n && n < wordSize 64 then some (.int n)
      else if -(wordSize 127 : Int) ≤ n && n < wordSize 128 then some (.wide n)
      else none
  | none => none

/-- A numeral that is not too large, or a word for infinity or not-a-number. -/
def float? (cs : List Char) : Option Double :=
  let isWord (opening : List Char) (words : List String) : Bool :=
    words.any fun word => opening ++ word.toList == cs
  if isWord [] [".inf", ".Inf", ".INF"] || isWord ['+'] [".inf", ".Inf", ".INF"] then
    some (.infinite false)
  else if isWord ['-'] [".inf", ".Inf", ".INF"] then some (.infinite true)
  else if isWord [] [".nan", ".NaN", ".NAN"] then some .nan
  else (Double.ofNumeral? cs).filter Double.isFinite

/-! ## Plain scalars -/

def resolve (s : String) : Meaning :=
  let cs := s.toList
  if cs.isEmpty || isNullWord cs then .null
  else
    match boolOfWord? cs, int? cs with
    | some b, _ => .bool b
    | none, some meaning => meaning
    | none, none =>
        if isPaddedNumber cs then .text s
        else
          match float? cs with
          | some x => .float x
          | none => .text s

/-- Numbers are written without an exponent from a hundred-thousandth up to sixteen digits, and
always with a point. -/
def floatLayout : Double.Layout where
  tie := .even
  positional := fun k => -5 < k && k ≤ 16
  wholeEnd := ['.', '0']
  plus := []
  infinity := ".inf".toList
  nan := ".nan".toList

end Scalar

def Number.chars : Number → List Char
  | .int n => (toString n).toList
  | .float x => Scalar.floatLayout.text x

end BundleCheck.Yaml
