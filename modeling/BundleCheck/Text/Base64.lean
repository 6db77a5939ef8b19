/-! # Bytes in base 64 -/

namespace BundleCheck.Text

def base64Letter (n : Nat) : Char :=
  if n < 26 then Char.ofNat (65 + n)
  else if n < 52 then Char.ofNat (97 + (n - 26))
  else if n < 62 then Char.ofNat (48 + (n - 52))
  else if n = 62 then '+'
  else '/'

def base64Letters : Nat → Nat → List Char
  | 0, _ => []
  | count + 1, n => base64Letters count (n / 64) ++ [base64Letter (n % 64)]

/-- Three bytes are four letters; a last group that is shorter is filled up with equals signs. -/
def base64 : List UInt8 → List Char
  | [] => []
  | [a] => base64Letters 2 (a.toNat * 16) ++ ['=', '=']
  | [a, b] => base64Letters 3 ((a.toNat * 256 + b.toNat) * 4) ++ ['=']
  | a :: b :: c :: rest =>
      base64Letters 4 ((a.toNat * 256 + b.toNat) * 256 + c.toNat) ++ base64 rest

end BundleCheck.Text
