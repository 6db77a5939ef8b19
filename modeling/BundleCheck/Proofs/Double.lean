import BundleCheck.Double.Numeral
import BundleCheck.Proofs.Text

/-! # Exact floating point numbers

A significand has at most 53 bits. So a whole number that is rounded up from a floating point number
has no more significant bits than that, and a decimal numeral of such a number is read exactly. -/

namespace BundleCheck.Double

open Text

/-- The value of a finite number without its sign. -/
def magnitude (m : Nat) (e : Int) : ℚ :=
  m * 2 ^ e

/-- A whole number that is a multiple of a power of two by a significand. -/
def IsExact (n : Nat) : Prop :=
  ∃ m k, m < 2 ^ 53 ∧ n = m * 2 ^ k

/-! ## Scaled quotients -/

theorem dividedByPower_pos (num : Nat) {den : Nat} (hden : 0 < den) (e : Int) :
    0 < (dividedByPower num den e).2 := by
  unfold dividedByPower
  split
  · exact Nat.mul_pos hden (Nat.pow_pos (by decide))
  · exact hden

/-- Dividing by a power of two is exact. -/
theorem dividedByPower_eq (num den : Nat) (e : Int) :
    ((dividedByPower num den e).1 : ℚ) * (den * 2 ^ e) = num * (dividedByPower num den e).2 := by
  unfold dividedByPower
  split
  next he =>
    lift e to ℕ using he
    simp only [Int.toNat_natCast, Nat.pow_eq, Nat.cast_mul, Nat.cast_pow, Nat.cast_ofNat,
      zpow_natCast]
  next he =>
    obtain ⟨k, rfl⟩ : ∃ k : ℕ, e = -(k : ℤ) := ⟨(-e).toNat, by omega⟩
    simp only [neg_neg, Int.toNat_natCast, Nat.pow_eq, Nat.cast_mul, Nat.cast_pow, Nat.cast_ofNat,
      zpow_neg, zpow_natCast]
    field_simp

theorem dividedByPower_lt_iff {num den : Nat} (hden : 0 < den) (e : Int) (c : Nat) :
    (dividedByPower num den e).1 / (dividedByPower num den e).2 < c ↔
      (num : ℚ) < c * (den * 2 ^ e) := by
  have hpos := dividedByPower_pos num hden e
  have heq := dividedByPower_eq num den e
  generalize dividedByPower num den e = s at hpos heq
  have hs : (0 : ℚ) < s.2 := by exact_mod_cast hpos
  have hscale : (0 : ℚ) < den * 2 ^ e := by positivity
  rw [Nat.div_lt_iff_lt_mul hpos]
  calc s.1 < c * s.2 ↔ (s.1 : ℚ) < c * s.2 := by exact_mod_cast Iff.rfl
    _ ↔ (s.1 : ℚ) * (den * 2 ^ e) < c * s.2 * (den * 2 ^ e) := (mul_lt_mul_iff_left₀ hscale).symm
    _ ↔ (num : ℚ) * s.2 < c * (den * 2 ^ e) * s.2 := by rw [heq, mul_right_comm]
    _ ↔ (num : ℚ) < c * (den * 2 ^ e) := mul_lt_mul_iff_left₀ hs

/-! ## Significands -/

theorem lt_two_zpow_of_log2_le {n : Nat} {k : Int} (h : (n.log2 : Int) + 1 ≤ k) :
    (n : ℚ) < 2 ^ k := by
  calc (n : ℚ) < 2 ^ (n.log2 + 1) := by exact_mod_cast Nat.lt_log2_self
    _ = 2 ^ ((n.log2 : Int) + 1) := by norm_cast
    _ ≤ 2 ^ k := zpow_le_zpow_right₀ (by norm_num) h

theorem two_zpow_log2_le {n : Nat} (hn : n ≠ 0) : (2 : ℚ) ^ (n.log2 : Int) ≤ n := by
  exact_mod_cast Nat.log2_self_le hn

/-- The difference of the logarithms bounds a quotient. -/
theorem lt_two_zpow_log2_sub (num : Nat) {den : Nat} (hden : 0 < den) :
    (num : ℚ) < 2 ^ 53 * (den * 2 ^ ((num.log2 : Int) - (den.log2 : Int) - 52)) := by
  generalize hguess : (num.log2 : Int) - (den.log2 : Int) - 52 = guess
  calc (num : ℚ) < 2 ^ (53 + (den.log2 : Int) + guess) := lt_two_zpow_of_log2_le (by omega)
    _ = 2 ^ 53 * (2 ^ (den.log2 : Int) * 2 ^ guess) := by
        rw [zpow_add₀ (by norm_num), zpow_add₀ (by norm_num), mul_assoc]
        norm_cast
    _ ≤ 2 ^ 53 * (den * 2 ^ guess) := by
        have hlog := two_zpow_log2_le hden.ne'
        gcongr

/-- At the exponent of a quotient its whole part has at most 53 bits. -/
theorem dividedByPower_exponentFor_lt (num : Nat) {den : Nat} (hden : 0 < den) :
    (dividedByPower num den (exponentFor num den)).1 /
      (dividedByPower num den (exponentFor num den)).2 < 2 ^ 53 := by
  rw [dividedByPower_lt_iff hden]
  -- It is enough to bound the quotient at some exponent that is not greater.
  have hmono : ∀ e : Int, e ≤ exponentFor num den → (num : ℚ) < 2 ^ 53 * (den * 2 ^ e) →
      (num : ℚ) < (2 ^ 53 : ℕ) * (den * 2 ^ exponentFor num den) := by
    intro e he hlt
    have hpow : (2 : ℚ) ^ e ≤ 2 ^ exponentFor num den := zpow_le_zpow_right₀ (by norm_num) he
    calc (num : ℚ) < 2 ^ 53 * (den * 2 ^ e) := hlt
      _ ≤ 2 ^ 53 * (den * 2 ^ exponentFor num den) := by gcongr
      _ = _ := by norm_num
  have hwhole := lt_two_zpow_log2_sub num hden
  generalize hguess : (num.log2 : Int) - (den.log2 : Int) - 52 = guess at hwhole
  by_cases hsmall : (dividedByPower num den guess).1 / (dividedByPower num den guess).2 < 2 ^ 52
  · have hhalf : (num : ℚ) < 2 ^ 53 * (den * 2 ^ (guess - 1)) := by
      have hlt := (dividedByPower_lt_iff hden guess _).mp hsmall
      have hpow : (2 : ℚ) ^ guess = 2 * 2 ^ (guess - 1) := by
        rw [← zpow_one_add₀ (by norm_num), add_sub_cancel]
      calc (num : ℚ) < (2 ^ 52 : ℕ) * (den * 2 ^ guess) := hlt
        _ = 2 ^ 53 * (den * 2 ^ (guess - 1)) := by rw [hpow]; push_cast; ring
    refine hmono (guess - 1) ?_ hhalf
    simp only [exponentFor, hguess, Nat.pow_eq, if_pos hsmall, le_max_left]
  · refine hmono guess ?_ hwhole
    simp only [exponentFor, hguess, Nat.pow_eq, if_neg hsmall, le_max_left]

theorem divHalfEven_le (num den : Nat) : divHalfEven num den ≤ num / den + 1 := by
  unfold divHalfEven
  simp only
  split <;> omega

theorem divHalfEven_mul_self {q den : Nat} (hden : 0 < den) : divHalfEven (q * den) den = q := by
  simp [divHalfEven, Nat.mul_div_cancel _ hden, hden]

theorem significand_lt_of_ofRatio {negative sign : Bool} {num den m : Nat} {e : Int}
    (hden : 0 < den) (h : ofRatio negative num den = .finite sign m e) : m < 2 ^ 53 := by
  unfold ofRatio at h
  split at h
  · cases h
    decide
  · have hle := divHalfEven_le (dividedByPower num den (exponentFor num den)).1
      (dividedByPower num den (exponentFor num den)).2
    have hlt := dividedByPower_exponentFor_lt num hden
    simp only [Nat.pow_eq] at h
    by_cases hcarry : divHalfEven (dividedByPower num den (exponentFor num den)).1
        (dividedByPower num den (exponentFor num den)).2 = 2 ^ 53
    · rw [if_pos hcarry] at h
      split at h
      · cases h
      · cases h
        exact Nat.pow_lt_pow_right (by decide) (by decide)
    · rw [if_neg hcarry] at h
      split at h
      · cases h
      · cases h
        omega

theorem significand_lt_of_ofDecimal {negative sign : Bool} {coefficient m : Nat} {power e : Int}
    (h : ofDecimal negative coefficient power = .finite sign m e) : m < 2 ^ 53 := by
  unfold ofDecimal at h
  simp only at h
  split at h
  · cases h
    decide
  · split at h
    · cases h
    · split at h
      · exact significand_lt_of_ofRatio (by decide) h
      · exact significand_lt_of_ofRatio (Nat.pow_pos (by decide)) h

/-- The significand of a number that is read has at most 53 bits. -/
theorem significand_lt_of_ofNumeral? {cs : List Char} {sign : Bool} {m : Nat} {e : Int}
    (h : ofNumeral? cs = some (.finite sign m e)) : m < 2 ^ 53 := by
  unfold ofNumeral? at h
  simp only at h
  split at h
  next coefficient power _ _ =>
    exact significand_lt_of_ofDecimal (Option.some.inj h)
  · cases h

/-! ## Whole numbers -/

theorem ceilScaled_eq (m : Nat) (e : Int) : ceilScaled m e = ⌈magnitude m e⌉₊ := by
  unfold ceilScaled magnitude
  split
  next he =>
    lift e to ℕ using he
    have hcast : (m : ℚ) * 2 ^ (e : ℤ) = (m * 2 ^ e : ℕ) := by
      push_cast
      norm_cast
    rw [hcast, Nat.ceil_natCast]
    rfl
  next he =>
    obtain ⟨k, rfl⟩ : ∃ k : ℕ, e = -(k : ℤ) := ⟨(-e).toNat, by omega⟩
    simp only [neg_neg, Int.toNat_natCast, Nat.pow_eq, zpow_neg, zpow_natCast]
    refine eq_of_forall_ge_iff fun c => ?_
    have hpos : 0 < 2 ^ k := Nat.pow_pos (by decide)
    rw [← Nat.ceilDiv_eq_add_pred_div, ceilDiv_le_iff_le_mul hpos, Nat.ceil_le,
      mul_inv_le_iff₀ (by positivity), mul_comm (c : ℚ)]
    exact_mod_cast Iff.rfl

/-- A number rounded up has no more significant bits than it had. -/
theorem isExact_ceilScaled {m : Nat} (hm : m < 2 ^ 53) (e : Int) : IsExact (ceilScaled m e) := by
  unfold ceilScaled
  split
  · exact ⟨m, e.toNat, hm, rfl⟩
  · -- A number that is not multiplied up is not greater than its significand.
    refine ⟨(m + Nat.pow 2 (-e).toNat - 1) / Nat.pow 2 (-e).toNat, 0, ?_, by simp⟩
    have hpos : 0 < Nat.pow 2 (-e).toNat := Nat.pow_pos (by decide)
    refine lt_of_le_of_lt ?_ hm
    rw [← Nat.ceilDiv_eq_add_pred_div, ceilDiv_le_iff_le_mul hpos]
    exact Nat.le_mul_of_pos_left m hpos

theorem IsExact.of_mul_two_pow {q j : Nat} (h : IsExact (q * 2 ^ j)) : IsExact q := by
  obtain ⟨m, k, hm, heq⟩ := h
  have hpos : 0 < 2 ^ j := Nat.pow_pos (by decide)
  by_cases hjk : j ≤ k
  · refine ⟨m, k - j, hm, Nat.eq_of_mul_eq_mul_right hpos ?_⟩
    rw [heq, mul_assoc, ← pow_add, Nat.sub_add_cancel hjk]
  · have hsplit : (2 : ℕ) ^ j = 2 ^ (j - k) * 2 ^ k := by
      rw [← pow_add, Nat.sub_add_cancel (by omega)]
    have hq : q * 2 ^ (j - k) = m := by
      refine Nat.eq_of_mul_eq_mul_right (Nat.pow_pos (n := k) two_pos) ?_
      rw [mul_assoc, ← hsplit, heq]
    have hle : q ≤ q * 2 ^ (j - k) := Nat.le_mul_of_pos_right q (Nat.pow_pos (by decide))
    exact ⟨q, 0, by omega, by simp⟩

/-- The exponent of a whole number gives it a significand of 53 bits. -/
theorem exponentFor_one {n : Nat} (hn : n ≠ 0) : exponentFor n 1 = (n.log2 : Int) - 52 := by
  have hguess : (n.log2 : Int) - ((1 : Nat).log2 : Int) - 52 = (n.log2 : Int) - 52 := by
    have hone : Nat.log2 1 = 0 := by decide
    simp [hone]
  have hlarge : ¬(dividedByPower n 1 ((n.log2 : Int) - 52)).1 /
      (dividedByPower n 1 ((n.log2 : Int) - 52)).2 < 2 ^ 52 := by
    rw [dividedByPower_lt_iff one_pos, not_lt]
    calc ((2 ^ 52 : ℕ) : ℚ) * ((1 : ℕ) * 2 ^ ((n.log2 : Int) - 52)) =
          2 ^ ((52 : Int) + ((n.log2 : Int) - 52)) := by
            rw [zpow_add₀ (by norm_num)]
            norm_num
      _ = 2 ^ (n.log2 : Int) := by rw [add_sub_cancel]
      _ ≤ n := two_zpow_log2_le hn
  simp only [exponentFor, hguess, Nat.pow_eq, if_neg hlarge, minExponent]
  omega

/-- A number with a significand is a multiple of the power of two at its exponent. -/
theorem IsExact.exists_mul_zpow {n : Nat} (h : IsExact n) (hn : n ≠ 0) :
    ∃ q : ℕ, (n : ℚ) = q * 2 ^ ((n.log2 : Int) - 52) := by
  obtain ⟨m, k, hm, hmk⟩ := h
  have hlog : n.log2 < 53 + k := by
    rw [Nat.log2_lt hn, hmk, pow_add]
    exact Nat.mul_lt_mul_of_pos_right hm (Nat.pow_pos (by decide))
  obtain ⟨j, hj⟩ := Int.le.dest (show (n.log2 : Int) - 52 ≤ k by omega)
  refine ⟨m * 2 ^ j, ?_⟩
  have hpow : (2 : ℚ) ^ k = 2 ^ j * 2 ^ ((n.log2 : Int) - 52) := by
    rw [← zpow_natCast, ← zpow_natCast, ← zpow_add₀ (by norm_num), ← hj, add_comm]
  rw [hmk]
  push_cast
  rw [← hmk, hpow, mul_assoc]

/-- A whole number with a significand is its own nearest number. -/
theorem ofRatio_of_isExact {n : Nat} (hn : IsExact n) (hsize : n < wordSize 64) :
    ∃ m e, ofRatio false n 1 = .finite false m e ∧ magnitude m e = n := by
  by_cases hzero : n = 0
  · subst hzero
    exact ⟨0, minExponent, rfl, by simp [magnitude]⟩
  · obtain ⟨q, hq⟩ := hn.exists_mul_zpow hzero
    have hlt := dividedByPower_exponentFor_lt n one_pos
    have hpos := dividedByPower_pos n one_pos (exponentFor n 1)
    have heq := dividedByPower_eq n 1 (exponentFor n 1)
    rw [exponentFor_one hzero] at hlt hpos heq
    have hscaled : (dividedByPower n 1 ((n.log2 : Int) - 52)).1 =
        q * (dividedByPower n 1 ((n.log2 : Int) - 52)).2 := by
      have hscale : (0 : ℚ) < 2 ^ ((n.log2 : Int) - 52) := by positivity
      have hcast : ((dividedByPower n 1 ((n.log2 : Int) - 52)).1 : ℚ) =
          q * (dividedByPower n 1 ((n.log2 : Int) - 52)).2 := by
        refine mul_right_cancel₀ hscale.ne' ?_
        simpa [hq, mul_right_comm] using heq
      exact_mod_cast hcast
    rw [hscaled, Nat.mul_div_cancel _ hpos] at hlt
    have hlog : n.log2 < 64 := (Nat.log2_lt hzero).mpr hsize
    refine ⟨q, (n.log2 : Int) - 52, ?_, hq.symm⟩
    simp only [ofRatio, if_neg hzero, exponentFor_one hzero, hscaled, divHalfEven_mul_self hpos,
      Nat.pow_eq, if_neg hlt.ne, maxExponent]
    exact if_neg (by omega)

/-- The digits of a number of 64 bits are read as the number nearest to it. -/
theorem ofNumeral?_decimal {n : Nat} (h : n < wordSize 64) :
    ofNumeral? (decimal n) = some (ofRatio false n 1) := by
  have hdigit : ∀ c ∈ decimal n, isDigit c = true := by
    intro c hc
    rw [isDigit, digitValue?_of_isDigit (isDigit_of_mem_decimal hc)]
    rfl
  have hsign : signOf (decimal n) = (false, decimal n) := by
    cases hdecimal : decimal n with
    | nil => rfl
    | cons c cs =>
        have hmem : c ∈ decimal n := by simp [hdecimal]
        have hc := isDigit_of_mem_decimal hmem
        unfold signOf
        split
        · simp_all
        · simp_all
        · rfl
  have hlength : (decimal n).length ≤ 20 := by
    refine (Nat.length_toDigits_le_iff (by decide) (by decide)).mpr (h.trans ?_)
    decide
  have hdecimal : ofDecimal false n 0 = ofRatio false n 1 := by
    have hlength : (Nat.toDigits 10 n).length ≤ 20 := hlength
    by_cases hn : n = 0
    · subst hn
      rfl
    · simp only [ofDecimal, hn, decide_false, Bool.false_or, decide_eq_true_eq]
      rw [if_neg (by omega), if_neg (by omega)]
      simp
  simp only [ofNumeral?, hsign, List.takeWhile_eq_self_iff.mpr hdigit,
    List.dropWhile_eq_nil_iff.mpr hdigit, List.append_nil, digits?_decimal, exponent?,
    List.length_nil]
  exact congrArg some hdecimal

end BundleCheck.Double
