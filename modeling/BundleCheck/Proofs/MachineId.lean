import BundleCheck.Proofs.SortedMap.Search
import BundleCheck.Proofs.Text

/-! # The order of machine identifiers

Numbers come before other texts, in numeric order; identifiers that are one number, or none, are
ordered by their texts. This is a total order, and only equal identifiers compare as equal, so that
a map finds the identifiers that it has for keys. -/

namespace BundleCheck

open Text

namespace MachineId

variable {a b : MachineId} {m n : Nat}

/-! ## Numbers -/

/-- The identifier is a number of 64 bits: digits, behind a plus sign or not. Zeros may come first,
so that a number has many identifiers. -/
def IsNumber (id : MachineId) (n : Nat) : Prop :=
  ∃ digits : List Char, (id.text.toList = digits ∨ id.text.toList = '+' :: digits) ∧
    digits ≠ [] ∧ (∀ c ∈ digits, c.isDigit = true) ∧ Nat.ofDigitChars 10 digits 0 = n ∧ n < 2 ^ 64

theorem number?_eq_some_iff : a.number? = some n ↔ a.IsNumber n :=
  natural?_eq_some_iff

theorem number?_eq_none_iff : a.number? = none ↔ ∀ n, ¬ a.IsNumber n := by
  simp only [Option.eq_none_iff_forall_ne_some, ne_eq, number?_eq_some_iff]

/-! ## Comparison -/

theorem compare_eq (a b : MachineId) : compare a b =
    (compare a.number?.isNone b.number?.isNone).then
      ((compare (a.number?.getD 0) (b.number?.getD 0)).then (compare a.text b.text)) :=
  rfl

theorem compare_of_numbers (ha : a.number? = some m) (hb : b.number? = some n) :
    compare a b = (compare m n).then (compare a.text b.text) := by
  rw [compare_eq, ha, hb]
  rfl

theorem compare_of_number_of_name (ha : a.number? = some m) (hb : b.number? = none) :
    compare a b = .lt := by
  rw [compare_eq, ha, hb]
  rfl

theorem compare_of_name_of_number (ha : a.number? = none) (hb : b.number? = some n) :
    compare a b = .gt := by
  rw [compare_eq, ha, hb]
  rfl

theorem compare_of_names (ha : a.number? = none) (hb : b.number? = none) :
    compare a b = compare a.text b.text := by
  rw [compare_eq, ha, hb]
  rfl

inductive Precedes (a b : MachineId) : Prop
  | numberBeforeName {m : Nat} (ha : a.IsNumber m) (hb : ∀ n, ¬ b.IsNumber n)
  | byNumber {m n : Nat} (ha : a.IsNumber m) (hb : b.IsNumber n) (h : m < n)
  | bySpelling {n : Nat} (ha : a.IsNumber n) (hb : b.IsNumber n) (h : a.text < b.text)
  | byName (ha : ∀ m, ¬ a.IsNumber m) (hb : ∀ n, ¬ b.IsNumber n) (h : a.text < b.text)

theorem precedes_of_compare (h : compare a b = .lt) : Precedes a b := by
  cases ha : a.number? with
  | none =>
      cases hb : b.number? with
      | none =>
          rw [compare_of_names ha hb, compare_lt_iff_lt] at h
          exact .byName (number?_eq_none_iff.mp ha) (number?_eq_none_iff.mp hb) h
      | some n =>
          rw [compare_of_name_of_number ha hb] at h
          cases h
  | some m =>
      cases hb : b.number? with
      | none => exact .numberBeforeName (number?_eq_some_iff.mp ha) (number?_eq_none_iff.mp hb)
      | some n =>
          rw [compare_of_numbers ha hb, Ordering.then_eq_lt, compare_lt_iff_lt, compare_eq_iff_eq,
            compare_lt_iff_lt] at h
          rcases h with h | ⟨rfl, h⟩
          · exact .byNumber (number?_eq_some_iff.mp ha) (number?_eq_some_iff.mp hb) h
          · exact .bySpelling (number?_eq_some_iff.mp ha) (number?_eq_some_iff.mp hb) h

theorem Precedes.compare (h : Precedes a b) : compare a b = .lt := by
  cases h with
  | numberBeforeName ha hb =>
      exact compare_of_number_of_name (number?_eq_some_iff.mpr ha) (number?_eq_none_iff.mpr hb)
  | byNumber ha hb h =>
      rw [compare_of_numbers (number?_eq_some_iff.mpr ha) (number?_eq_some_iff.mpr hb),
        compare_lt_iff_lt.mpr h]
      rfl
  | bySpelling ha hb h =>
      rw [compare_of_numbers (number?_eq_some_iff.mpr ha) (number?_eq_some_iff.mpr hb),
        compare_eq_iff_eq.mpr rfl]
      exact compare_lt_iff_lt.mpr h
  | byName ha hb h =>
      rw [compare_of_names (number?_eq_none_iff.mpr ha) (number?_eq_none_iff.mpr hb)]
      exact compare_lt_iff_lt.mpr h

theorem compare_eq_eq_iff : compare a b = .eq ↔ a.text = b.text := by
  rw [Std.LawfulEqCmp.compare_eq_iff_eq]
  exact ⟨congrArg text, MachineId.ext⟩

theorem compare_trans {c : MachineId} {o : Ordering} (hab : compare a b = o)
    (hbc : compare b c = o) : compare a c = o := by
  cases o with
  | lt => exact Std.TransCmp.lt_trans hab hbc
  | eq => exact Std.TransCmp.eq_trans hab hbc
  | gt => exact Std.TransCmp.gt_trans hab hbc

theorem isLE_or_isLE (a b : MachineId) :
    (compare a b).isLE = true ∨ (compare b a).isLE = true := by
  have hswap : compare b a = (compare a b).swap := Std.OrientedCmp.eq_swap
  rw [hswap]
  cases compare a b <;> simp

/-! ## Identifiers as keys -/

/-- Identifiers are totally ordered: comparison the other way round gives the reverse, it is
transitive in each of its results, any two identifiers can be compared, and those that compare as
equal have one text. Numbers come before other texts, by value and then by spelling, and the others
are ordered by their texts. So a map has exactly the identifiers that were put into it, each with
what was last put there for it, and a search by comparisons finds them in a tree of any shape that
stores the map in order. -/
theorem compare_totalOrder :
    (∀ a b : MachineId, compare b a = (compare a b).swap) ∧
    (∀ (a b c : MachineId) (o : Ordering),
      compare a b = o → compare b c = o → compare a c = o) ∧
    (∀ a b : MachineId, (compare a b).isLE = true ∨ (compare b a).isLE = true) ∧
    (∀ a b : MachineId, compare a b = .eq ↔ a.text = b.text) ∧
    (∀ a b : MachineId, compare a b = .lt ↔ Precedes a b) ∧
    (∀ (α : Type) (es : List (MachineId × α)) (id : MachineId),
      ((SortedMap.ofList es).contains id = true ↔ id ∈ es.map Prod.fst) ∧
      (∀ v, (SortedMap.ofList es).get? id = some v ↔
        ∃ front back, es = front ++ (id, v) :: back ∧ ∀ e ∈ back, e.1 ≠ id) ∧
      ∀ t : SearchTree MachineId α, t.entries = (SortedMap.ofList es).entries →
        t.find? id = (SortedMap.ofList es).get? id) := by
  refine ⟨fun a b => Std.OrientedCmp.eq_swap, fun a b c o => compare_trans, isLE_or_isLE,
    fun a b => compare_eq_eq_iff, fun a b => ⟨precedes_of_compare, Precedes.compare⟩, ?_⟩
  intro α es id
  exact ⟨SortedMap.contains_ofList_iff, fun v => SortedMap.get?_ofList_eq_some_iff_last,
    fun t ht => SearchTree.find?_eq_get? ht id⟩

/-- Identifiers of which two are spellings of one number. -/
def spelledTree : SearchTree MachineId Nat :=
  .node (.node .leaf (ofText "01") 0 .leaf) (ofText "1") 2 (.node .leaf (ofText "gateway") 3 .leaf)

theorem compare_totalOrder_spelled :
    compare (ofText "+1") (ofText "1") = .lt ∧
      Precedes (ofText "18446744073709551615") (ofText "18446744073709551616") ∧
      spelledTree.find? (ofText " 1") = some 2 := by
  obtain ⟨-, htrans, -, -, hprecedes, hfind⟩ := compare_totalOrder
  refine ⟨htrans _ (ofText "01") _ .lt (by decide +kernel) (by decide +kernel),
    (hprecedes _ _).mp (by decide +kernel), ?_⟩
  obtain ⟨-, hlast, hsearch⟩ := hfind Nat
    [(ofText "1", 1), (ofText "gateway", 3), (ofText "1", 2), (ofText "01", 0)] (ofText " 1")
  rw [hsearch spelledTree (by decide +kernel), hlast]
  exact ⟨[(ofText "1", 1), (ofText "gateway", 3)], [(ofText "01", 0)], by decide +kernel,
    by decide +kernel⟩

end MachineId

end BundleCheck
