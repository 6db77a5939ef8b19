import BundleCheck.Proofs.Except
import BundleCheck.Proofs.ProviderMapping.Entries
import BundleCheck.Proofs.Text

/-! # VLAN ranges

A text of VLAN ranges is read by the last entry of each provider. An entry before it need not be
well formed. -/

namespace BundleCheck.ProviderMapping

open Text

/-! ## Ranges -/

/-- The text is `low:high`, two numbers of 16 bits that enclose VLAN identifiers. -/
def IsRange (text : List Char) (low high : Nat) : Prop :=
  ∃ start stop, text = start ++ ':' :: stop ∧ natural? 16 start = some low ∧
    natural? 16 stop = some high ∧ 1 ≤ low ∧ low ≤ high ∧ high ≤ 4094

theorem range?_eq_some_iff {text : List Char} {low high : Nat} :
    range? text = some (low, high) ↔ IsRange text low high := by
  unfold range?
  simp only [Option.bind_eq_bind, Option.bind_eq_some_iff, Prod.exists]
  constructor
  · rintro ⟨start, stop, hcut, low', hlow, high', hhigh, h⟩
    split_ifs at h with hbounds
    cases h
    simp only [Bool.or_eq_true, decide_eq_true_eq] at hbounds
    exact ⟨start, stop, (cutFirst_eq_some.mp hcut).1, hlow, hhigh, by omega, by omega, by omega⟩
  · rintro ⟨start, stop, rfl, hlow, hhigh, hpos, hle, hmax⟩
    refine ⟨start, stop, cutFirst_eq_some.mpr ⟨rfl, colon_not_mem_of_natural? hlow⟩, low, hlow,
      high, hhigh, ?_⟩
    rw [if_neg]
    simp only [Bool.or_eq_true, decide_eq_true_eq]
    omega

/-- What the text behind a provider gives: nothing if it is empty, otherwise its range. -/
inductive IsBounds : List Char → Option (Nat × Nat) → Prop
  | none : IsBounds [] none
  | range {text : List Char} {low high : Nat} (h : IsRange text low high) :
      IsBounds text (some (low, high))

theorem isBounds_nil_iff {bounds : Option (Nat × Nat)} : IsBounds [] bounds ↔ bounds = none := by
  constructor
  · rintro (- | ⟨start, stop, htext, -⟩)
    · rfl
    · simp at htext
  · rintro rfl
    exact .none

theorem isBounds_iff_of_ne_nil {text : List Char} {bounds : Option (Nat × Nat)} (hne : text ≠ []) :
    IsBounds text bounds ↔ ∃ found, range? text = some found ∧ bounds = some found := by
  constructor
  · rintro (- | h)
    · exact absurd rfl hne
    · exact ⟨_, range?_eq_some_iff.mpr h, rfl⟩
  · rintro ⟨⟨low, high⟩, h, rfl⟩
    exact .range (range?_eq_some_iff.mp h)

/-- An entry `provider` or `provider:text` gives the provider a range or none. -/
inductive Gives : List Char → List Char → Option (Nat × Nat) → Prop
  | bare {provider : List Char} (hne : provider ≠ []) (hcolon : ':' ∉ provider) :
      Gives provider provider none
  | colon {provider text : List Char} {bounds : Option (Nat × Nat)} (hne : provider ≠ [])
      (hcolon : ':' ∉ provider) (h : IsBounds text bounds) :
      Gives (provider ++ ':' :: text) provider bounds

def IsWellFormed (entry : List Char) : Prop :=
  ∃ provider bounds, Gives entry provider bounds

theorem gives_iff {entry provider : List Char} {bounds : Option (Nat × Nat)} :
    Gives entry provider bounds ↔
      (sides entry).1 = provider ∧ provider ≠ [] ∧ IsBounds (sides entry).2 bounds := by
  unfold sides
  constructor
  · rintro (⟨hne, hcolon⟩ | ⟨hne, hcolon, h⟩)
    · rw [cutFirst_eq_none.mpr hcolon]
      exact ⟨rfl, hne, .none⟩
    · rw [cutFirst_eq_some.mpr ⟨rfl, hcolon⟩]
      exact ⟨rfl, hne, h⟩
  · rintro ⟨rfl, hne, h⟩
    cases hcut : cutFirst ':' entry with
    | none =>
        rw [hcut] at hne h
        obtain rfl := isBounds_nil_iff.mp h
        exact .bare hne (cutFirst_eq_none.mp hcut)
    | some parts =>
        obtain ⟨provider, text⟩ := parts
        rw [hcut] at hne h
        obtain ⟨rfl, hcolon⟩ := cutFirst_eq_some.mp hcut
        exact .colon hne hcolon h

theorem exists_isBounds_iff {text : List Char} :
    (∃ bounds, IsBounds text bounds) ↔ text = [] ∨ (range? text).isSome = true := by
  by_cases htext : text = []
  · subst htext
    exact iff_of_true ⟨none, .none⟩ (.inl rfl)
  · simp [isBounds_iff_of_ne_nil htext, htext, Option.isSome_iff_exists]

theorem isWellFormed_iff {entry : List Char} :
    IsWellFormed entry ↔
      (sides entry).1 ≠ [] ∧ ((sides entry).2 = [] ∨ (range? (sides entry).2).isSome = true) := by
  simp only [IsWellFormed, gives_iff, ← exists_isBounds_iff]
  constructor
  · rintro ⟨_, bounds, rfl, hne, h⟩
    exact ⟨hne, bounds, h⟩
  · rintro ⟨hne, bounds, h⟩
    exact ⟨_, bounds, rfl, hne, h⟩

instance (entry : List Char) : Decidable (IsWellFormed entry) :=
  decidable_of_iff _ isWellFormed_iff.symm

theorem readRange_eq_ok_iff {value provider range : String}
    {result : String × Option (Nat × Nat)} :
    readRange value provider range = .ok result ↔
      result.1 = provider ∧ provider.toList ≠ [] ∧ IsBounds range.toList result.2 := by
  obtain ⟨name, bounds⟩ := result
  unfold readRange
  split_ifs with hprovider hrange
  · simp_all
  · have hempty : range.toList = [] := by simpa using hrange
    have hne : provider.toList ≠ [] := by simpa using hprovider
    rw [hempty, isBounds_nil_iff]
    simp [hne, eq_comm]
  · have hne : provider.toList ≠ [] := by simpa using hprovider
    have htext : range.toList ≠ [] := by simpa using hrange
    rw [isBounds_iff_of_ne_nil htext]
    cases range? range.toList <;> simp [hne, eq_comm]

/-- What is read for a provider is what the entry gives. -/
theorem readRange_sides_eq_ok_iff {value : String} {entry : List Char}
    {result : String × Option (Nat × Nat)} :
    readRange value (String.ofList (sides entry).1) (String.ofList (sides entry).2) = .ok result ↔
      Gives entry result.1.toList result.2 := by
  rw [readRange_eq_ok_iff, gives_iff, ← String.toList_inj]
  simp only [String.toList_ofList]
  constructor
  · rintro ⟨hname, hne, h⟩
    exact ⟨hname.symm, hname ▸ hne, h⟩
  · rintro ⟨hname, hne, h⟩
    exact ⟨hname.symm, hname ▸ hne, h⟩

/-! ## Ranges by provider -/

/-- The ranges that a map holds are those of a text: it has the providers of the text for keys, each
with the range that its last entry gives. -/
structure HoldsRanges (value : String) (m : SortedMap String (Option (Nat × Nat))) : Prop where
  contains_iff : ∀ provider, m.contains provider = true ↔
    ∃ entry ∈ entries value, String.ofList (sides entry).1 = provider
  get?_eq : ∀ provider last, lastOf? value provider = some last →
    ∃ bounds, Gives last provider.toList bounds ∧ m.get? provider = some bounds

theorem vlanRanges_eq_ok_iff {value : String} {m : SortedMap String (Option (Nat × Nat))} :
    vlanRanges value = .ok m ↔
      ∃ ranges, (byLeft value).entries.mapM (fun e => readRange value e.1 e.2) = .ok ranges ∧
        SortedMap.ofList ranges = m := by
  rw [vlanRanges, bind_eq_ok_iff]
  refine exists_congr fun ranges => and_congr_right fun _ => ⟨fun h => ?_, fun h => ?_⟩
  · exact Except.ok.inj h
  · exact congrArg Except.ok h

theorem exists_vlanRanges_iff {value : String} :
    (∃ m, vlanRanges value = .ok m) ↔
      ∀ provider last, lastOf? value provider = some last → IsWellFormed last := by
  have hread : (∃ m, vlanRanges value = .ok m) ↔
      ∃ ranges, (byLeft value).entries.mapM (fun e => readRange value e.1 e.2) = .ok ranges := by
    simp only [vlanRanges_eq_ok_iff]
    constructor
    · rintro ⟨_, ranges, hranges, -⟩
      exact ⟨ranges, hranges⟩
    · rintro ⟨ranges, hranges⟩
      exact ⟨_, ranges, hranges, rfl⟩
  rw [hread, exists_mapM_eq_ok_iff]
  constructor
  · intro h provider last hlast
    obtain ⟨result, hresult⟩ := h _ (mem_byLeft_iff.mpr ⟨last, hlast, rfl⟩)
    obtain ⟨-, rfl⟩ := mem_of_lastOf? hlast
    exact ⟨_, _, readRange_sides_eq_ok_iff.mp hresult⟩
  · rintro h ⟨provider, range⟩ he
    obtain ⟨last, hlast, rfl⟩ := mem_byLeft_iff.mp he
    obtain ⟨provider', bounds, hgives⟩ := h provider last hlast
    obtain ⟨-, rfl⟩ := mem_of_lastOf? hlast
    refine ⟨(String.ofList provider', bounds), readRange_sides_eq_ok_iff.mpr ?_⟩
    simpa using hgives

theorem map_fst_of_readRange {value : String} {es : List (String × String)}
    {ranges : List (String × Option (Nat × Nat))}
    (h : List.Forall₂ (fun e range => readRange value e.1 e.2 = .ok range) es ranges) :
    ranges.map (·.1) = es.map (·.1) := by
  induction h with
  | nil => rfl
  | cons hread _ ih => rw [List.map_cons, List.map_cons, (readRange_eq_ok_iff.mp hread).1, ih]

/-- Reading keeps the providers, and with them the order of the entries. -/
theorem get?_ofList_ranges {value : String} {ranges : List (String × Option (Nat × Nat))}
    (h : List.Forall₂ (fun e range => readRange value e.1 e.2 = .ok range) (byLeft value).entries
      ranges) {provider : String} {bounds : Option (Nat × Nat)} :
    (SortedMap.ofList ranges).get? provider = some bounds ↔ (provider, bounds) ∈ ranges := by
  have hsorted : ranges.Pairwise fun a b => compare a.1 b.1 = .lt := by
    rw [← List.pairwise_map (f := Prod.fst) (R := fun a b => compare a b = .lt),
      map_fst_of_readRange h,
      List.pairwise_map]
    exact (byLeft value).sorted
  rw [SortedMap.get?_eq_some_iff, SortedMap.entries_ofList hsorted]

theorem holdsRanges_of_vlanRanges {value : String} {m : SortedMap String (Option (Nat × Nat))}
    (h : vlanRanges value = .ok m) : HoldsRanges value m := by
  obtain ⟨ranges, hranges, rfl⟩ := vlanRanges_eq_ok_iff.mp h
  have hstep := forall₂_of_mapM hranges
  have hlast : ∀ provider last, lastOf? value provider = some last →
      ∃ bounds, Gives last provider.toList bounds ∧
        (SortedMap.ofList ranges).get? provider = some bounds := by
    intro provider last hlast
    obtain ⟨⟨name, bounds⟩, hmem, hread⟩ :=
      exists_of_mem_right hstep.flip (mem_byLeft_iff.mpr ⟨last, hlast, rfl⟩)
    obtain ⟨-, rfl⟩ := mem_of_lastOf? hlast
    obtain rfl : name = String.ofList (sides last).1 := (readRange_eq_ok_iff.mp hread).1
    exact ⟨bounds, readRange_sides_eq_ok_iff.mp hread, (get?_ofList_ranges hstep).mpr hmem⟩
  refine ⟨fun provider => ?_, hlast⟩
  rw [SortedMap.contains, Option.isSome_iff_exists]
  constructor
  · rintro ⟨bounds, hbounds⟩
    obtain ⟨⟨name, range⟩, he, hread⟩ :=
      exists_of_mem_right hstep ((get?_ofList_ranges hstep).mp hbounds)
    obtain rfl : provider = name := (readRange_eq_ok_iff.mp hread).1
    obtain ⟨last, hfound, -⟩ := mem_byLeft_iff.mp he
    exact ⟨last, mem_of_lastOf? hfound⟩
  · rintro ⟨entry, hentry, rfl⟩
    obtain ⟨last, hfound⟩ := exists_lastOf? hentry
    obtain ⟨bounds, -, hbounds⟩ := hlast _ last hfound
    exact ⟨bounds, hbounds⟩

/-- VLAN ranges are read exactly if the last entry of every provider is well formed, and the result
then holds the ranges of these entries. So a text in which every entry is well formed is read. The
converse fails exactly where some entry is malformed and each of them stands before another entry
of its provider, of which the last one is well formed. -/
theorem vlanRanges_lastEntries (value : String) :
    ((∃ m, vlanRanges value = .ok m) ↔
        ∀ provider last, lastOf? value provider = some last → IsWellFormed last) ∧
      (∀ m, vlanRanges value = .ok m → HoldsRanges value m) ∧
      (((∃ m, vlanRanges value = .ok m) ↔ ∀ entry ∈ entries value, IsWellFormed entry) ↔
        ((∃ entry ∈ entries value, ¬ IsWellFormed entry) →
          ∃ provider last, lastOf? value provider = some last ∧ ¬ IsWellFormed last)) := by
  refine ⟨exists_vlanRanges_iff, fun m => holdsRanges_of_vlanRanges, ?_⟩
  rw [exists_vlanRanges_iff]
  constructor
  · rintro hiff ⟨entry, hentry, hmalformed⟩
    by_contra hnone
    push Not at hnone
    exact hmalformed (hiff.mp hnone entry hentry)
  · intro himp
    constructor
    · intro hlast
      by_contra hnone
      push Not at hnone
      obtain ⟨provider, last, hfound, hmalformed⟩ := himp hnone
      exact hmalformed (hlast provider last hfound)
    · intro hall provider last hfound
      exact hall last (mem_of_lastOf? hfound).1

/-- An empty text behind the colon gives no range, whatever was given before. -/
theorem vlanRanges_lastEntries_none :
    ∃ m, vlanRanges "p:1:5 q:+7:007 p:" = .ok m ∧ m.get? "p" = some none := by
  obtain ⟨hread, hholds, -⟩ := vlanRanges_lastEntries "p:1:5 q:+7:007 p:"
  obtain ⟨m, hm⟩ := hread.mpr fun provider last hlast =>
    have hall : ∀ entry ∈ entries "p:1:5 q:+7:007 p:", IsWellFormed entry := by decide +kernel
    hall last (mem_of_lastOf? hlast).1
  obtain ⟨bounds, hgives, hget⟩ := (hholds m hm).get?_eq "p" "p:".toList (by decide +kernel)
  have hbounds : IsBounds [] bounds := (gives_iff.mp hgives).2.2
  exact ⟨m, hm, by rw [hget, isBounds_nil_iff.mp hbounds]⟩

/-- The last of two entries is well formed, and hides that the first is not. -/
theorem malformed_range_overwritten :
    (vlanRanges "p:5:1 p:1:5").map (·.entries) = .ok [("p", some (1, 5))] ∧
      "p:5:1".toList ∈ entries "p:5:1 p:1:5" ∧ ¬ IsWellFormed "p:5:1".toList ∧
      (vlanRanges "p:5:1").map (·.entries) = .error (.invalidRange "p" "5:1") := by
  decide +kernel

end BundleCheck.ProviderMapping
