import BundleCheck.Text.Split

/-! # Blanks, trimming and words -/

namespace BundleCheck.Text

/-- Blanks are the characters with the Unicode property White_Space. -/
def isBlank (c : Char) : Bool :=
  let code := c.toNat
  (0x09 ≤ code && code ≤ 0x0D) || code == 0x20 || code == 0x85 || code == 0xA0 ||
    code == 0x1680 || (0x2000 ≤ code && code ≤ 0x200A) || code == 0x2028 || code == 0x2029 ||
    code == 0x202F || code == 0x205F || code == 0x3000

def trimEnd (cs : List Char) : List Char :=
  (cs.reverse.dropWhile isBlank).reverse

def trim (cs : List Char) : List Char :=
  trimEnd (cs.dropWhile isBlank)

def trimmed (s : String) : String :=
  String.ofList (trim s.toList)

/-- The maximal runs of characters that are not blank. -/
def words (cs : List Char) : List (List Char) :=
  (pieces isBlank cs).filter fun piece => !piece.isEmpty

/-! ## Trimming is idempotent -/

private theorem dropWhile_dropWhile (p : Char → Bool) (cs : List Char) :
    (cs.dropWhile p).dropWhile p = cs.dropWhile p := by
  induction cs with
  | nil => rfl
  | cons c cs ih =>
      by_cases h : p c
      · simp [h, ih]
      · simp [h]

private theorem dropWhile_eq_self (p : Char → Bool) {cs : List Char}
    (h : ∀ c, cs.head? = some c → p c = false) : cs.dropWhile p = cs := by
  cases cs with
  | nil => rfl
  | cons c cs => simp [h c rfl]

private theorem head_dropWhile (p : Char → Bool) (cs : List Char) :
    ∀ c, (cs.dropWhile p).head? = some c → p c = false := by
  induction cs with
  | nil => simp
  | cons c cs ih =>
      by_cases h : p c
      · simpa [h] using ih
      · simp [h]

private theorem dropWhile_suffix (p : Char → Bool) (cs : List Char) :
    ∃ front, cs = front ++ cs.dropWhile p :=
  ⟨cs.takeWhile p, (List.takeWhile_append_dropWhile).symm⟩

theorem trimEnd_trimEnd (cs : List Char) : trimEnd (trimEnd cs) = trimEnd cs := by
  simp [trimEnd, dropWhile_dropWhile]

/-- Dropping blanks at the end leaves the first character alone, unless nothing is left. -/
theorem head_trimEnd {cs : List Char} {c : Char} (h : (trimEnd cs).head? = some c) :
    cs.head? = some c := by
  obtain ⟨front, hfront⟩ := dropWhile_suffix isBlank cs.reverse
  have hcs : cs = trimEnd cs ++ front.reverse := by
    rw [trimEnd, ← List.reverse_append, ← hfront, List.reverse_reverse]
  rw [hcs]
  cases ht : trimEnd cs with
  | nil => simp [ht] at h
  | cons d ds => simpa [ht] using h

theorem trim_trim (cs : List Char) : trim (trim cs) = trim cs := by
  have h : (trim cs).dropWhile isBlank = trim cs :=
    dropWhile_eq_self isBlank fun c hc =>
      head_dropWhile isBlank cs c (head_trimEnd (by simpa [trim] using hc))
  rw [trim, h, trim, trimEnd_trimEnd]

theorem trimmed_trimmed (s : String) : trimmed (trimmed s) = trimmed s := by
  simp [trimmed, trim_trim]

end BundleCheck.Text
