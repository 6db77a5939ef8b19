import BundleCheck.ProviderMapping
import BundleCheck.Proofs.SortedMap

/-! # Entries of provider mappings

Of the entries with one side before the colon, the last one counts. -/

namespace BundleCheck.ProviderMapping

open Text

def lastOf? (value provider : String) : Option (List Char) :=
  (entries value).reverse.find? fun entry => String.ofList (sides entry).1 = provider

theorem get?_byLeft (value provider : String) :
    (byLeft value).get? provider =
      (lastOf? value provider).map fun entry => String.ofList (sides entry).2 := by
  rw [byLeft, SortedMap.get?_ofList, ← List.map_reverse, List.find?_map, Option.map_map]
  rfl

theorem mem_of_lastOf? {value provider : String} {entry : List Char}
    (h : lastOf? value provider = some entry) :
    entry ∈ entries value ∧ String.ofList (sides entry).1 = provider := by
  have hmem := List.mem_of_find?_eq_some h
  have hprovider := List.find?_some h
  exact ⟨List.mem_reverse.mp hmem, by simpa using hprovider⟩

/-- Every entry has a last one with the same text before the colon. -/
theorem exists_lastOf? {value : String} {entry : List Char} (h : entry ∈ entries value) :
    ∃ last, lastOf? value (String.ofList (sides entry).1) = some last := by
  rw [← Option.isSome_iff_exists, lastOf?, List.find?_isSome]
  exact ⟨entry, List.mem_reverse.mpr h, by simp⟩

/-- The map of the entries holds the last entry of each provider. -/
theorem mem_byLeft_iff {value provider range : String} :
    (provider, range) ∈ (byLeft value).entries ↔
      ∃ last, lastOf? value provider = some last ∧ String.ofList (sides last).2 = range := by
  rw [← SortedMap.get?_eq_some_iff, get?_byLeft, Option.map_eq_some_iff]

end BundleCheck.ProviderMapping
