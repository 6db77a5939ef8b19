import BundleCheck.Proofs.Constraints.Settings
import BundleCheck.Proofs.Double

/-! # Values of constraints

Every kind of value is read back as it was written, provided that it is one that can be read: a size
with few significant bits or the greatest one, a number of 64 bits, a text without blanks, items
without blanks and commas. -/

namespace BundleCheck.Constraints

open Text

/-- Text that blanks do not divide. -/
def NoBlank (cs : List Char) : Prop :=
  ∀ c ∈ cs, isBlank c = false

instance (cs : List Char) : Decidable (NoBlank cs) :=
  List.decidableBAll (fun c => isBlank c = false) cs

theorem NoBlank.append {cs ds : List Char} (hcs : NoBlank cs) (hds : NoBlank ds) :
    NoBlank (cs ++ ds) :=
  List.forall_mem_append.mpr ⟨hcs, hds⟩

theorem noBlank_joinWith {sep : List Char} (hsep : NoBlank sep) {parts : List (List Char)}
    (h : ∀ part ∈ parts, NoBlank part) : NoBlank (joinWith sep parts) :=
  forall_mem_joinWith hsep h

theorem noBlank_decimal (n : Nat) : NoBlank (decimal n) := fun _ hc =>
  isBlank_of_isDigit (isDigit_of_mem_decimal hc)

/-! ## Sizes -/

/-- A size that can be read: one with few significant bits, or the greatest. -/
def IsSize (n : Nat) : Prop :=
  (Double.IsExact n ∧ n < wordSize 64) ∨ n = maxSize

theorem isSize_of_size? {value : List Char} {n : Nat} (h : size? value = some n) : IsSize n := by
  unfold size? at h
  simp only at h
  split at h
  next negative m e hread =>
    split at h
    · cases h
    · cases h
      have hexact := Double.isExact_ceilScaled (Double.significand_lt_of_ofNumeral? hread)
        (e + (splitUnit value).2)
      by_cases hlarge : maxSize ≤ Double.ceilScaled m (e + (splitUnit value).2)
      · exact .inr (min_eq_right hlarge)
      · rw [min_eq_left (by omega)]
        refine .inl ⟨hexact, ?_⟩
        unfold maxSize at hlarge
        omega
  · cases h

theorem splitUnit_append {unit : Char} {power : Nat} (h : unitPower? unit = some power)
    (numeral : List Char) : splitUnit (numeral ++ [unit]) = (numeral, power) := by
  simp [splitUnit, h]

theorem readSize_eq_ok_iff {key : String} {value : List Char} {n : Nat} :
    readSize key value = .ok n ↔ size? value = some n := by
  unfold readSize
  split <;> simp_all

/-- A whole number of units is read exactly. -/
theorem size?_decimal_append {q power : Nat} {unit : Char} (hunit : unitPower? unit = some power)
    (hexact : Double.IsExact q) (hsize : q * 2 ^ power < wordSize 64) :
    size? (decimal q ++ [unit]) = some (q * 2 ^ power) := by
  have hq : q < wordSize 64 :=
    lt_of_le_of_lt (Nat.le_mul_of_pos_right q (Nat.pow_pos (by decide))) hsize
  obtain ⟨m, e, hround, hvalue⟩ := Double.ofRatio_of_isExact hexact hq
  have hscaled : Double.ceilScaled m (e + power) = q * 2 ^ power := by
    have hmagnitude : Double.magnitude m (e + power) = (q * 2 ^ power : ℕ) := by
      rw [Double.magnitude, zpow_add₀ (by norm_num), ← mul_assoc, ← Double.magnitude, hvalue]
      norm_cast
    rw [Double.ceilScaled_eq, hmagnitude, Nat.ceil_natCast]
  simp only [size?, splitUnit_append hunit, Double.ofNumeral?_decimal hq, hround, hscaled,
    Bool.false_and, Bool.false_eq_true, if_false, Option.some.injEq, min_eq_left_iff, maxSize]
  omega

theorem size?_maxSize : size? (sizeChars maxSize) = some maxSize := by
  decide +kernel

/-- A size is read back. -/
theorem size?_sizeChars {n : Nat} (h : IsSize n) : size? (sizeChars n) = some n := by
  rcases h with ⟨hexact, hsize⟩ | rfl
  · unfold sizeChars
    split
    next hwhole =>
      have hn : n = n / 1024 * 2 ^ 10 := by
        simp only [Bool.and_eq_true, decide_eq_true_eq, beq_iff_eq] at hwhole
        omega
      rw [hn] at hexact hsize
      rw [size?_decimal_append rfl hexact.of_mul_two_pow hsize, ← hn]
    · exact (size?_decimal_append rfl hexact (by simpa using hsize)).trans (by simp)
  · exact size?_maxSize

theorem noBlank_sizeChars (n : Nat) : NoBlank (sizeChars n) := by
  unfold sizeChars
  split
  · exact (noBlank_decimal _).append (by decide)
  · exact (noBlank_decimal _).append (by decide)

/-! ## Numbers -/

theorem readNumber_eq_ok_iff {key : String} {value : List Char} {n : Nat} :
    readNumber key value = .ok n ↔ natural? 64 value = some n := by
  unfold readNumber
  split <;> simp_all

/-! ## Texts and lists -/

theorem text?_toList {s : String} (h : s ≠ "") : text? s.toList = some s := by
  have hne : s.toList ≠ [] := by simpa using h
  simp [text?, hne]

/-- Items that can be read are not empty, and neither blanks nor commas divide them. -/
def IsItem (item : String) : Prop :=
  item ≠ "" ∧ NoBlank item.toList ∧ ',' ∉ item.toList

/-- Blanks that do not occur need not be trimmed. -/
theorem items_eq {value : List Char} (h : NoBlank value) :
    items value =
      ((pieces (· == ',') value).filter fun item => !item.isEmpty).map String.ofList := by
  have htrim : (pieces (· == ',') value).map trim = pieces (· == ',') value :=
    (List.map_congr_left fun piece hpiece =>
      trim_of_forall_eq_false fun c hc => h c (mem_of_mem_pieces hpiece hc)).trans (List.map_id _)
  rw [items, htrim]

theorem isItem_of_mem_items {value : List Char} (hvalue : NoBlank value) {item : String}
    (h : item ∈ items value) : IsItem item := by
  rw [items_eq hvalue] at h
  obtain ⟨piece, hpiece, rfl⟩ := List.mem_map.mp h
  obtain ⟨hpiece, hne⟩ := List.mem_filter.mp hpiece
  refine ⟨by simpa using hne, ?_, ?_⟩
  · intro c hc
    rw [String.toList_ofList] at hc
    exact hvalue c (mem_of_mem_pieces hpiece hc)
  · intro hcomma
    rw [String.toList_ofList] at hcomma
    simpa using eq_false_of_mem_pieces hpiece _ hcomma

theorem noBlank_itemsChars {list : List String} (h : ∀ item ∈ list, IsItem item) :
    NoBlank (joinWith [','] (list.map String.toList)) := by
  refine noBlank_joinWith (by decide) fun part hpart => ?_
  obtain ⟨item, hitem, rfl⟩ := List.mem_map.mp hpart
  exact (h item hitem).2.1

/-- Items are found again after they were joined. -/
theorem items_joinWith {list : List String} (h : ∀ item ∈ list, IsItem item) :
    items (joinWith [','] (list.map String.toList)) = list := by
  by_cases hne : list = []
  · subst hne
    rfl
  · have hcomma : ∀ part ∈ list.map String.toList, ∀ c ∈ part, (c == ',') = false := by
      intro part hpart c hc
      obtain ⟨item, hitem, rfl⟩ := List.mem_map.mp hpart
      have hne : c ≠ ',' := fun he => (h item hitem).2.2 (he ▸ hc)
      simpa using hne
    rw [items_eq (noBlank_itemsChars h), pieces_joinWith (by decide) (by simpa using hne) hcomma,
      List.filter_eq_self.mpr]
    · simp
    · intro part hpart
      obtain ⟨item, hitem, rfl⟩ := List.mem_map.mp hpart
      simpa using (h item hitem).1

end BundleCheck.Constraints
