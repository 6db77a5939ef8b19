import BundleCheck.Text.Base64
import Mathlib

/-! # Bytes and letters

Bytes are digits in base 256, and letters are digits in base 64. The letters of some bytes stand for
the same number as these, but for zeros that fill up the last letter. -/

namespace BundleCheck.Text

/-! ## Digits -/

/-- The number that digits stand for, the first of which weighs most. -/
def numberOf (base : Nat) (digits : List Nat) : Nat :=
  Nat.ofDigits base digits.reverse

theorem numberOf_nil (base : Nat) : numberOf base [] = 0 :=
  rfl

theorem numberOf_append (base : Nat) (front back : List Nat) :
    numberOf base (front ++ back) =
      numberOf base front * base ^ back.length + numberOf base back := by
  rw [numberOf, List.reverse_append, Nat.ofDigits_append, List.length_reverse, numberOf, numberOf]
  ring

theorem numberOf_singleton (base digit : Nat) : numberOf base [digit] = digit :=
  Nat.ofDigits_singleton

/-- A group of three bytes in front. -/
theorem numberOf_group (a b c : UInt8) (bytes : List UInt8) :
    numberOf 256 ((a :: b :: c :: bytes).map UInt8.toNat) =
      ((a.toNat * 256 + b.toNat) * 256 + c.toNat) * 256 ^ bytes.length +
        numberOf 256 (bytes.map UInt8.toNat) := by
  have hthree : numberOf 256 [a.toNat, b.toNat, c.toNat] =
      (a.toNat * 256 + b.toNat) * 256 + c.toNat := by
    simp only [numberOf, List.reverse_cons, List.reverse_nil, List.nil_append,
      List.cons_append, Nat.ofDigits_cons, Nat.ofDigits_nil]
    ring
  have hsame : (bytes.map UInt8.toNat).length = bytes.length := List.length_map _
  rw [← hthree, ← hsame, ← numberOf_append]
  rfl

def lastDigits : Nat → Nat → List Nat
  | 0, _ => []
  | count + 1, n => lastDigits count (n / 64) ++ [n % 64]

theorem length_lastDigits (count n : Nat) : (lastDigits count n).length = count := by
  induction count generalizing n with
  | zero => rfl
  | succ count ih => rw [lastDigits, List.length_append, ih, List.length_singleton]

theorem lt_of_mem_lastDigits {count n d : Nat} (h : d ∈ lastDigits count n) : d < 64 := by
  induction count generalizing n with
  | zero => cases h
  | succ count ih =>
      rcases List.mem_append.mp h with h | h
      · exact ih h
      · rw [List.mem_singleton.mp h]
        exact Nat.mod_lt n (by decide)

theorem numberOf_lastDigits {count n : Nat} (h : n < 64 ^ count) :
    numberOf 64 (lastDigits count n) = n := by
  induction count generalizing n with
  | zero => rw [lastDigits, numberOf_nil, Nat.lt_one_iff.mp h]
  | succ count ih =>
      have hfront : n / 64 < 64 ^ count := by
        rw [Nat.div_lt_iff_lt_mul (by decide), ← pow_succ]
        exact h
      rw [lastDigits, numberOf_append, ih hfront, numberOf_singleton, List.length_singleton,
        pow_one, Nat.div_add_mod']

/-! ## Letters -/

def alphabet : List Char :=
  "ABCDEFGHIJKLMNOPQRSTUVWXYZabcdefghijklmnopqrstuvwxyz0123456789+/".toList

theorem base64Letter_eq {n : Nat} (h : n < 64) : base64Letter n = alphabet.getD n '=' := by
  revert n
  decide

theorem base64Letters_eq (count n : Nat) :
    base64Letters count n = (lastDigits count n).map fun d => alphabet.getD d '=' := by
  induction count generalizing n with
  | zero => rfl
  | succ count ih =>
      rw [base64Letters, lastDigits, List.map_append, ih, List.map_singleton,
        base64Letter_eq (Nat.mod_lt n (by decide))]

/-! ## Encoding -/

/-- The characters are letters for six-bit digits and signs that fill up the last group of four. The
digits stand for the number that the bytes stand for, with fewer than six bits behind it. -/
structure IsBase64 (bytes : List UInt8) (cs : List Char) (digits : List Nat) (padding : Nat) :
    Prop where
  letters : cs = (digits.map fun d => alphabet.getD d '=') ++ List.replicate padding '='
  lt : ∀ d ∈ digits, d < 64
  groups : 4 ∣ digits.length + padding
  padding : padding < 4
  enough : 8 * bytes.length ≤ 6 * digits.length
  fewest : 6 * digits.length < 8 * bytes.length + 6
  value : numberOf 64 digits =
    numberOf 256 (bytes.map UInt8.toNat) * 2 ^ (6 * digits.length - 8 * bytes.length)

namespace IsBase64

variable {bytes : List UInt8} {cs : List Char} {digits : List Nat} {padding : Nat}

/-- Three bytes in front are four letters in front. -/
theorem group (h : IsBase64 bytes cs digits padding) (a b c : UInt8) :
    IsBase64 (a :: b :: c :: bytes)
      (base64Letters 4 ((a.toNat * 256 + b.toNat) * 256 + c.toNat) ++ cs)
      (lastDigits 4 ((a.toNat * 256 + b.toNat) * 256 + c.toNat) ++ digits) padding := by
  obtain ⟨hletters, hlt, hgroups, hpadding, henough, hfewest, hvalue⟩ := h
  have ha := a.toNat_lt
  have hb := b.toNat_lt
  have hc := c.toNat_lt
  have hlength : (lastDigits 4 ((a.toNat * 256 + b.toNat) * 256 + c.toNat) ++ digits).length =
      4 + digits.length := by
    rw [List.length_append, length_lastDigits]
  constructor
  case letters => rw [hletters, base64Letters_eq, List.map_append, List.append_assoc]
  case lt =>
    rw [List.forall_mem_append]
    exact ⟨fun d hd => lt_of_mem_lastDigits hd, hlt⟩
  case groups =>
    rw [hlength]
    omega
  case padding => exact hpadding
  case enough =>
    rw [hlength]
    simp only [List.length_cons]
    omega
  case fewest =>
    rw [hlength]
    simp only [List.length_cons]
    omega
  case value =>
    have hpow : 64 ^ digits.length =
        256 ^ bytes.length * 2 ^ (6 * digits.length - 8 * bytes.length) := by
      rw [show 64 = 2 ^ 6 by rfl, show 256 = 2 ^ 8 by rfl, ← pow_mul, ← pow_mul, ← pow_add]
      congr 1
      omega
    have hexponent : 6 * (4 + digits.length) - 8 * (a :: b :: c :: bytes).length =
        6 * digits.length - 8 * bytes.length := by
      simp only [List.length_cons]
      omega
    rw [hlength, hexponent, numberOf_append, numberOf_lastDigits (by omega), hvalue, hpow,
      numberOf_group]
    ring

/-- A last group, whose letters are filled up. -/
theorem last {count n : Nat} (hn : n < 64 ^ count) (hgroups : 4 ∣ count + padding)
    (hpadding : padding < 4) (henough : 8 * bytes.length ≤ 6 * count)
    (hfewest : 6 * count < 8 * bytes.length + 6)
    (hvalue : n = numberOf 256 (bytes.map UInt8.toNat) * 2 ^ (6 * count - 8 * bytes.length)) :
    IsBase64 bytes (base64Letters count n ++ List.replicate padding '=') (lastDigits count n)
      padding := by
  have hlength := length_lastDigits count n
  constructor
  case letters => rw [base64Letters_eq]
  case lt => exact fun d => lt_of_mem_lastDigits
  case groups => rwa [hlength]
  case padding => exact hpadding
  case enough => rwa [hlength]
  case fewest => rwa [hlength]
  case value => rw [hlength, numberOf_lastDigits hn, ← hvalue]

end IsBase64

/-- What bytes are encoded as is base 64. -/
theorem isBase64_base64 (bytes : List UInt8) :
    ∃ digits padding, IsBase64 bytes (base64 bytes) digits padding := by
  induction bytes using base64.induct with
  | case1 => exact ⟨[], 0, by constructor <;> simp [base64, numberOf]⟩
  | case2 a =>
      have ha := a.toNat_lt
      have hlast : IsBase64 [a] (base64Letters 2 (a.toNat * 16) ++ List.replicate 2 '=')
          (lastDigits 2 (a.toNat * 16)) 2 :=
        .last (by omega) (by decide) (by decide) (by simp) (by simp)
          (by simp [numberOf])
      exact ⟨_, _, hlast⟩
  | case3 a b =>
      have ha := a.toNat_lt
      have hb := b.toNat_lt
      have hlast : IsBase64 [a, b]
          (base64Letters 3 ((a.toNat * 256 + b.toNat) * 4) ++ List.replicate 1 '=')
          (lastDigits 3 ((a.toNat * 256 + b.toNat) * 4)) 1 :=
        .last (by omega) (by decide) (by decide) (by simp) (by simp)
          (by simp [numberOf, Nat.ofDigits_cons]; ring)
      exact ⟨_, _, hlast⟩
  | case4 a b c rest ih =>
      obtain ⟨digits, padding, h⟩ := ih
      exact ⟨_, padding, h.group a b c⟩

end BundleCheck.Text
