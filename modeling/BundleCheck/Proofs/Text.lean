import BundleCheck.Text.Blank
import BundleCheck.Text.Numeral
import Mathlib

/-! # Laws of texts

What was joined with a separator is cut into the same pieces again, and a number that was written
is read back. -/

namespace BundleCheck.Text

variable {α : Type}

/-! ## Cutting -/

/-- Text behind the last separator holds none. -/
theorem cutLast_append_cons [DecidableEq α] {sep : α} {before after : List α} (h : sep ∉ after) :
    cutLast sep (before ++ sep :: after) = some (before, after) := by
  have hcut : cutFirst sep (before ++ sep :: after).reverse =
      some (after.reverse, before.reverse) :=
    cutFirst_eq_some.mpr ⟨by simp, by simpa using h⟩
  rw [cutLast, hcut]
  simp

/-- A text that was cut is its two parts with the separator between them. -/
theorem cutLast_eq_some [DecidableEq α] {sep : α} {cs before after : List α}
    (h : cutLast sep cs = some (before, after)) : cs = before ++ sep :: after := by
  obtain ⟨⟨front, back⟩, hcut, heq⟩ := Option.map_eq_some_iff.mp h
  cases heq
  have hreverse := (cutFirst_eq_some.mp hcut).1
  rw [← List.reverse_reverse cs, hreverse]
  simp

section Pieces

variable {p : α → Bool}

theorem pieces_ne_nil (cs : List α) : pieces p cs ≠ [] := by
  cases cs with
  | nil => simp [pieces]
  | cons c cs =>
      rw [pieces]
      split
      · simp
      · split <;> simp

theorem pieces_of_forall_eq_false {cs : List α} (h : ∀ c ∈ cs, p c = false) :
    pieces p cs = [cs] := by
  induction cs with
  | nil => rfl
  | cons c cs ih =>
      simp [pieces, h c (by simp), ih fun d hd => h d (by simp [hd])]

theorem pieces_append_cons {cs rest : List α} {sep : α} (h : ∀ c ∈ cs, p c = false)
    (hsep : p sep = true) : pieces p (cs ++ sep :: rest) = cs :: pieces p rest := by
  induction cs with
  | nil => simp [pieces, hsep]
  | cons c cs ih =>
      simp [pieces, h c (by simp), ih fun d hd => h d (by simp [hd])]

/-- A separator divides the pieces of what stands before it from those of what follows. -/
theorem pieces_append_sep {sep : α} (hsep : p sep = true) (front rest : List α) :
    pieces p (front ++ sep :: rest) = pieces p front ++ pieces p rest := by
  induction front with
  | nil => simp [pieces, hsep]
  | cons c front ih =>
      cases hfront : pieces p front with
      | nil => exact absurd hfront (pieces_ne_nil front)
      | cons piece others =>
          by_cases hc : p c = true
          · simp [pieces, hc, ih, hfront]
          · simp [pieces, hc, ih, hfront]

/-- No piece holds a separator. -/
theorem eq_false_of_mem_pieces {cs piece : List α} (hpiece : piece ∈ pieces p cs) :
    ∀ c ∈ piece, p c = false := by
  induction cs generalizing piece with
  | nil =>
      intro c hc
      simp_all [pieces]
  | cons d cs ih =>
      by_cases hd : p d = true
      · simp only [pieces, hd, if_true, List.mem_cons] at hpiece
        rcases hpiece with rfl | hpiece
        · simp
        · exact ih hpiece
      · simp only [pieces, hd, Bool.false_eq_true, if_false] at hpiece
        cases hpieces : pieces p cs with
        | nil =>
            simp_all
        | cons first others =>
            simp only [hpieces, List.mem_cons] at hpiece
            rcases hpiece with rfl | hpiece
            · intro c hc
              rcases List.mem_cons.mp hc with rfl | hc
              · simpa using hd
              · exact ih (hpieces ▸ by simp) c hc
            · exact ih (hpieces ▸ by simp [hpiece])

theorem mem_of_mem_pieces {cs piece : List α} (hpiece : piece ∈ pieces p cs) {c : α}
    (hc : c ∈ piece) : c ∈ cs := by
  induction cs generalizing piece with
  | nil => simp_all [pieces]
  | cons d cs ih =>
      rw [pieces] at hpiece
      split at hpiece
      · rcases List.mem_cons.mp hpiece with rfl | hpiece
        · cases hc
        · exact List.mem_cons_of_mem d (ih hpiece hc)
      · split at hpiece
        next hpieces => exact absurd hpieces (pieces_ne_nil cs)
        next first others hpieces =>
          rcases List.mem_cons.mp hpiece with rfl | hpiece
          · rcases List.mem_cons.mp hc with rfl | hc
            · simp
            · exact List.mem_cons_of_mem d (ih (hpieces ▸ by simp) hc)
          · exact List.mem_cons_of_mem d (ih (hpieces ▸ by simp [hpiece]) hc)

theorem joinWith_cons (sep piece : List α) (rest : List (List α)) :
    joinWith sep (piece :: rest) = piece ++ (rest.map (sep ++ ·)).flatten := by
  induction rest generalizing piece with
  | nil => simp [joinWith]
  | cons next rest ih => simp [joinWith, ih next]

/-- What holds of the separator and of all parts holds of what they are joined to. -/
theorem forall_mem_joinWith {P : α → Prop} {sep : List α} (hsep : ∀ c ∈ sep, P c)
    {parts : List (List α)} (h : ∀ part ∈ parts, ∀ c ∈ part, P c) :
    ∀ c ∈ joinWith sep parts, P c := by
  cases parts with
  | nil => exact nofun
  | cons part parts =>
      obtain ⟨hpart, hparts⟩ := List.forall_mem_cons.mp h
      rw [joinWith_cons]
      refine List.forall_mem_append.mpr ⟨hpart, fun c hc => ?_⟩
      obtain ⟨_, hjoined, hc⟩ := List.mem_flatten.mp hc
      obtain ⟨next, hnext, rfl⟩ := List.mem_map.mp hjoined
      exact List.forall_mem_append.mpr ⟨hsep, hparts next hnext⟩ c hc

/-- Pieces that hold no separator are found again after they were joined. -/
theorem pieces_joinWith {sep : α} (hsep : p sep = true) {parts : List (List α)}
    (hne : parts ≠ []) (h : ∀ part ∈ parts, ∀ c ∈ part, p c = false) :
    pieces p (joinWith [sep] parts) = parts := by
  induction parts with
  | nil => exact absurd rfl hne
  | cons part parts ih =>
      cases parts with
      | nil => exact pieces_of_forall_eq_false (h part (by simp))
      | cons next parts =>
          rw [joinWith, List.append_assoc, List.singleton_append,
            pieces_append_cons (h part (by simp)) hsep,
            ih (by simp) fun q hq => h q (by simp [hq])]
          simp

/-- Joining the pieces between equal separators gives the text again. -/
theorem joinWith_pieces [DecidableEq α] (sep : α) (cs : List α) :
    joinWith [sep] (pieces (· == sep) cs) = cs := by
  induction cs with
  | nil => rfl
  | cons c cs ih =>
      cases hpieces : pieces (· == sep) cs with
      | nil => exact absurd hpieces (pieces_ne_nil cs)
      | cons first others =>
          rw [hpieces] at ih
          by_cases hc : c = sep
          · simp [pieces, hc, hpieces, joinWith, ih]
          · cases others <;> simp_all [pieces, joinWith]

/-- The last piece is what stands behind the last separator. -/
theorem getLast_pieces [DecidableEq α] (sep : α) (cs : List α) :
    (pieces (· == sep) cs).getLast (pieces_ne_nil cs) = cs.rtakeWhile (· != sep) := by
  have hlast : pieces (· == sep) (cs.rtakeWhile (· != sep)) = [cs.rtakeWhile (· != sep)] :=
    pieces_of_forall_eq_false fun c hc => by simpa using List.mem_rtakeWhile_imp hc
  by_cases hfront : cs.rdropWhile (· != sep) = []
  · have hcs : cs.rtakeWhile (· != sep) = cs := by
      simpa [hfront] using List.rdropWhile_append_rtakeWhile (p := (· != sep)) (l := cs)
    rw [hcs] at hlast ⊢
    simp [hlast]
  · -- What is left ends with a separator, which divides the pieces.
    have hsep : (cs.rdropWhile (· != sep)).getLast hfront = sep := by
      simpa using List.rdropWhile_last_not (· != sep) cs hfront
    have hcs : cs = (cs.rdropWhile (· != sep)).dropLast ++ sep :: cs.rtakeWhile (· != sep) := by
      conv_lhs => rw [← List.rdropWhile_append_rtakeWhile (p := (· != sep)) (l := cs),
        ← List.dropLast_append_getLast hfront, hsep]
      simp
    have hpieces : pieces (· == sep) cs =
        pieces (· == sep) (cs.rdropWhile (· != sep)).dropLast ++ [cs.rtakeWhile (· != sep)] := by
      conv_lhs => rw [hcs]
      rw [pieces_append_sep (by simp), hlast]
    simp [hpieces]

end Pieces

/-! ## Words -/

theorem mem_words {cs word : List Char} (h : word ∈ words cs) :
    word ≠ [] ∧ ∀ c ∈ word, isBlank c = false := by
  obtain ⟨hpiece, hne⟩ := List.mem_filter.mp h
  exact ⟨by simpa using hne, eq_false_of_mem_pieces hpiece⟩

/-- Words that were joined with a blank are found again. -/
theorem words_joinWith {ws : List (List Char)}
    (h : ∀ w ∈ ws, w ≠ [] ∧ ∀ c ∈ w, isBlank c = false) : words (joinWith [' '] ws) = ws := by
  by_cases hne : ws = []
  · subst hne
    rfl
  · rw [words, pieces_joinWith (by decide) hne fun w hw => (h w hw).2, List.filter_eq_self]
    intro w hw
    simpa using (h w hw).1

/-! ## Trimming -/

theorem trimEnd_eq_self {cs : List Char}
    (h : ∀ c, cs.getLast? = some c → isBlank c = false) : trimEnd cs = cs := by
  rw [trimEnd, List.reverse_eq_iff]
  cases hreverse : cs.reverse with
  | nil => rfl
  | cons c rest =>
      have hlast : cs.getLast? = some c := by
        rw [← List.head?_reverse, hreverse]
        rfl
      simp [h c hlast]

/-- Where no blank ends a text, only the blanks at its beginning are dropped. -/
theorem trim_of_getLast? {cs : List Char}
    (h : ∀ c, cs.getLast? = some c → isBlank c = false) : trim cs = cs.dropWhile isBlank := by
  refine trimEnd_eq_self fun c hc => h c ?_
  obtain ⟨front, hfront⟩ := List.dropWhile_suffix (l := cs) isBlank
  rw [← hfront, List.getLast?_append, hc]
  rfl

/-- A text that neither begins nor ends with a blank is left alone. -/
theorem trim_eq_self {cs : List Char} (hfirst : ∀ c, cs.head? = some c → isBlank c = false)
    (hlast : ∀ c, cs.getLast? = some c → isBlank c = false) : trim cs = cs := by
  rw [trim_of_getLast? hlast]
  cases cs with
  | nil => rfl
  | cons c cs => simp [hfirst c rfl]

/-- A text without blanks is left alone. -/
theorem trim_of_forall_eq_false {cs : List Char} (h : ∀ c ∈ cs, isBlank c = false) :
    trim cs = cs :=
  trim_eq_self (fun c hc => h c (List.mem_of_head? hc)) fun c hc => h c (List.mem_of_getLast? hc)

/-- A trimmed text does not begin with a blank. -/
theorem isBlank_of_head?_trim {cs : List Char} {c : Char} (h : (trim cs).head? = some c) :
    isBlank c = false := by
  have hhead : (cs.dropWhile isBlank).head? = some c := head_trimEnd h
  have hnot := List.head?_dropWhile_not isBlank cs
  rw [hhead] at hnot
  simpa using hnot

/-- A trimmed text does not end with a blank. -/
theorem isBlank_of_getLast?_trim {cs : List Char} {c : Char} (h : (trim cs).getLast? = some c) :
    isBlank c = false := by
  rw [trim, trimEnd, List.getLast?_reverse] at h
  have hnot := List.head?_dropWhile_not isBlank (cs.dropWhile isBlank).reverse
  rw [h] at hnot
  simpa using hnot

theorem mem_of_mem_trim {cs : List Char} {c : Char} (h : c ∈ trim cs) : c ∈ cs := by
  have hend : trim cs <+: cs.dropWhile isBlank := List.rdropWhile_prefix isBlank _
  exact (List.dropWhile_suffix isBlank).mem (hend.mem h)

/-- Something is left of a text that does not end with a blank. -/
theorem trim_ne_nil {cs : List Char} (hne : cs ≠ [])
    (h : ∀ c, cs.getLast? = some c → isBlank c = false) : trim cs ≠ [] := by
  rw [trim_of_getLast? h]
  intro hnil
  have hblank := List.dropWhile_eq_nil_iff.mp hnil _ (List.getLast_mem hne)
  rw [h _ (List.getLast?_eq_some_getLast hne)] at hblank
  cases hblank

/-! ## Numerals -/

theorem isDigit_iff {c : Char} : c.isDigit = true ↔ 48 ≤ c.toNat ∧ c.toNat ≤ 57 := by
  simp only [Char.isDigit, Bool.and_eq_true, decide_eq_true_eq, ge_iff_le, UInt32.le_iff_toNat_le]
  rfl

theorem isBlank_of_isDigit {c : Char} (h : c.isDigit = true) : isBlank c = false := by
  rw [isDigit_iff] at h
  simp only [isBlank, Bool.or_eq_false_iff, Bool.and_eq_false_iff, decide_eq_false_iff_not,
    beq_eq_false_iff_ne]
  omega

theorem digitValue?_of_isDigit {c : Char} (h : c.isDigit = true) :
    digitValue? 10 c = some (c.toNat - '0'.toNat) := by
  rw [isDigit_iff] at h
  have hzero : '0'.toNat = 48 := rfl
  have hvalue : c.toNat - 48 < 10 := by omega
  simp [digitValue?, h, hzero, hvalue]

theorem digitsFrom?_of_isDigit {cs : List Char} (h : ∀ c ∈ cs, c.isDigit = true) (acc : Nat) :
    digitsFrom? 10 acc cs = some (Nat.ofDigitChars 10 cs acc) := by
  induction cs generalizing acc with
  | nil => rfl
  | cons c cs ih =>
      rw [digitsFrom?, digitValue?_of_isDigit (h c (by simp)), Nat.ofDigitChars_cons]
      simp only
      rw [ih (fun d hd => h d (by simp [hd])), Nat.mul_comm]

theorem isDigit_of_digitValue? {c : Char} {d : Nat} (h : digitValue? 10 c = some d) :
    c.isDigit = true := by
  simp only [digitValue?, Option.filter_eq_some_iff] at h
  obtain ⟨hvalue, hd⟩ := h
  simp only [decide_eq_true_eq] at hd
  rw [isDigit_iff]
  grind

/-- Only digits are read as digits. -/
theorem isDigit_of_digitsFrom? {cs : List Char} {acc n : Nat}
    (h : digitsFrom? 10 acc cs = some n) : ∀ c ∈ cs, c.isDigit = true := by
  induction cs generalizing acc with
  | nil => exact nofun
  | cons c cs ih =>
      rw [digitsFrom?] at h
      split at h
      next d hd =>
        intro e he
        rcases List.mem_cons.mp he with rfl | he
        · exact isDigit_of_digitValue? hd
        · exact ih h e he
      · cases h

/-- A numeral is a text of digits, at least one, and stands for their value. -/
theorem digits?_eq_some_iff {cs : List Char} {n : Nat} :
    digits? 10 cs = some n ↔
      cs ≠ [] ∧ (∀ c ∈ cs, c.isDigit = true) ∧ Nat.ofDigitChars 10 cs 0 = n := by
  rw [digits?]
  constructor
  · intro h
    split at h
    · cases h
    next hne =>
      have hdigits := isDigit_of_digitsFrom? h
      rw [digitsFrom?_of_isDigit hdigits] at h
      exact ⟨by simpa using hne, hdigits, Option.some.inj h⟩
  · rintro ⟨hne, hdigits, rfl⟩
    rw [if_neg (by simpa using hne), digitsFrom?_of_isDigit hdigits]

theorem isDigit_of_mem_decimal {n : Nat} {c : Char} (h : c ∈ decimal n) : c.isDigit = true :=
  Nat.isDigit_of_mem_toDigits (by decide) (by decide) h

theorem decimal_ne_nil (n : Nat) : decimal n ≠ [] :=
  Nat.toDigits_ne_nil

/-- The digits of a number are read as that number. -/
theorem digits?_decimal (n : Nat) : digits? 10 (decimal n) = some n :=
  digits?_eq_some_iff.mpr
    ⟨decimal_ne_nil n, fun _ => isDigit_of_mem_decimal, Nat.ofDigitChars_ten_toDigits⟩

/-- A number of a given width is written with digits, behind a plus sign or without one. -/
theorem natural?_eq_some_iff {bits n : Nat} {cs : List Char} :
    natural? bits cs = some n ↔
      ∃ digits, (cs = digits ∨ cs = '+' :: digits) ∧ digits ≠ [] ∧
        (∀ c ∈ digits, c.isDigit = true) ∧ Nat.ofDigitChars 10 digits 0 = n ∧
        n < wordSize bits := by
  have hread : ∀ digits : List Char,
      (digits? 10 digits).filter (· < wordSize bits) = some n ↔
        digits ≠ [] ∧ (∀ c ∈ digits, c.isDigit = true) ∧ Nat.ofDigitChars 10 digits 0 = n ∧
          n < wordSize bits := fun digits => by
    rw [Option.filter_eq_some_iff, digits?_eq_some_iff]
    simp only [decide_eq_true_eq, and_assoc]
  unfold natural?
  split
  next rest =>
    rw [hread]
    constructor
    · intro h
      exact ⟨rest, .inr rfl, h⟩
    · rintro ⟨digits, hdigits | hdigits, h⟩
      · -- A plus sign is no digit.
        have hplus := h.2.1 '+' (by simp [← hdigits])
        exact absurd hplus (by decide)
      · cases hdigits
        exact h
  next hsign =>
    rw [hread]
    constructor
    · intro h
      exact ⟨cs, .inl rfl, h⟩
    · rintro ⟨digits, rfl | rfl, h⟩
      · exact h
      · exact absurd rfl (hsign digits)

theorem lt_wordSize_of_natural? {bits n : Nat} {cs : List Char} (h : natural? bits cs = some n) :
    n < wordSize bits := by
  obtain ⟨-, -, -, -, -, hn⟩ := natural?_eq_some_iff.mp h
  exact hn

theorem natural?_decimal {bits n : Nat} (h : n < wordSize bits) :
    natural? bits (decimal n) = some n :=
  natural?_eq_some_iff.mpr ⟨decimal n, .inl rfl, decimal_ne_nil n,
    fun _ => isDigit_of_mem_decimal, Nat.ofDigitChars_ten_toDigits, h⟩

/-- Whole numbers are written with digits, and a hyphen before those of a negative one. -/
theorem isBlank_of_mem_toString {n : Int} {c : Char} (h : c ∈ (toString n).toList) :
    isBlank c = false := by
  cases n with
  | ofNat m =>
      have hc : c ∈ decimal m := by simpa [toString, Int.repr, Nat.repr, decimal] using h
      exact isBlank_of_isDigit (isDigit_of_mem_decimal hc)
  | negSucc m =>
      have hc : c = '-' ∨ c ∈ decimal (m + 1) := by
        simpa [toString, Int.repr, Nat.repr, decimal] using h
      rcases hc with rfl | hc
      · decide
      · exact isBlank_of_isDigit (isDigit_of_mem_decimal hc)

theorem toString_toList_ne_nil (n : Int) : (toString n).toList ≠ [] := by
  cases n with
  | ofNat m => simp [toString, Int.repr]
  | negSucc m => simp [toString, Int.repr]

theorem colon_not_mem_of_natural? {bits n : Nat} {cs : List Char}
    (h : natural? bits cs = some n) : ':' ∉ cs := by
  obtain ⟨digits, hcs, -, hdigits, -⟩ := natural?_eq_some_iff.mp h
  have hcolon : ':' ∉ digits := fun hmem => by
    simpa using hdigits ':' hmem
  rcases hcs with rfl | rfl
  · exact hcolon
  · simpa using hcolon

end BundleCheck.Text
