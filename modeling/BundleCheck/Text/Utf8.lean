/-! # Text as bytes -/

namespace BundleCheck.Text

/-! ## Decoding -/

/-- The character that stands for bytes which are no text. -/
def replacement : Char := '\ufffd'

/-- How a leading byte goes on: the number of bytes that follow, the range of the first of them
and the payload of the leading byte. -/
def utf8Lead? (b : Nat) : Option (Nat × Nat × Nat × Nat) :=
  if 0xC2 ≤ b && b ≤ 0xDF then some (1, 0x80, 0xBF, b - 0xC0)
  else if b == 0xE0 then some (2, 0xA0, 0xBF, b - 0xE0)
  else if b == 0xED then some (2, 0x80, 0x9F, b - 0xE0)
  else if 0xE1 ≤ b && b ≤ 0xEF then some (2, 0x80, 0xBF, b - 0xE0)
  else if b == 0xF0 then some (3, 0x90, 0xBF, b - 0xF0)
  else if 0xF1 ≤ b && b ≤ 0xF3 then some (3, 0x80, 0xBF, b - 0xF0)
  else if b == 0xF4 then some (3, 0x80, 0x8F, b - 0xF0)
  else none

/-- Reads `n` following bytes, the first of them between `low` and `high`. Answers the code
point, unless a byte is wrong or missing, and how many bytes were right. -/
def utf8Tail : Nat → Nat → Nat → Nat → List UInt8 → Option Nat × Nat
  | 0, _, _, code, _ => (some code, 0)
  | _ + 1, _, _, _, [] => (none, 0)
  | n + 1, low, high, code, b :: rest =>
      if low ≤ b.toNat && b.toNat ≤ high then
        let (result, taken) := utf8Tail n 0x80 0xBF (code * 0x40 + b.toNat % 0x40) rest
        (result, taken + 1)
      else (none, 0)

/-- The first character of some bytes, unless they begin with none, and the number of bytes
after the first that belong to it. -/
def utf8Head (b : UInt8) (rest : List UInt8) : Option Char × Nat :=
  if b.toNat < 0x80 then (some (Char.ofNat b.toNat), 0)
  else
    match utf8Lead? b.toNat with
    | some (n, low, high, payload) =>
        let (code?, taken) := utf8Tail n low high payload rest
        (code?.map Char.ofNat, taken)
    | none => (none, 0)

/-- The characters of some bytes; a run that is no character is `none`. -/
def utf8Chars (bytes : List UInt8) : List (Option Char) :=
  match bytes with
  | [] => []
  | b :: rest =>
      let (c, taken) := utf8Head b rest
      c :: utf8Chars (rest.drop taken)
termination_by bytes.length
decreasing_by simp only [List.length_drop, List.length_cons]; omega

/-- The text that bytes encode, if they encode one. -/
def ofUtf8? (bytes : List UInt8) : Option String :=
  ((utf8Chars bytes).mapM id).map String.ofList

/-- The text that bytes encode, with a replacement for each run that is no character. -/
def ofUtf8Lossy (bytes : List UInt8) : String :=
  String.ofList ((utf8Chars bytes).map fun c => c.getD replacement)

/-! ## Encoding -/

def utf8 (s : String) : List UInt8 :=
  s.toUTF8.data.toList

end BundleCheck.Text
