import BundleCheck.MachineId
import BundleCheck.SortedMap
import Mathlib

/-! # Laws of maps in key order -/

namespace BundleCheck

/-! ## Keys -/

/-- Machine identifiers that compare as equal are equal. -/
instance : Std.LawfulEqOrd MachineId where
  eq_of_compare {a b} h := by
    change compareLex _ _ a b = .eq at h
    rw [compareLex_eq_eq, compareLex_eq_eq] at h
    exact MachineId.ext (Std.LawfulEqOrd.eq_of_compare h.2.2)

namespace SortedMap

variable {κ α : Type} [Ord κ]

/-! ## Looking up -/

section Lookup

variable [Std.LawfulEqOrd κ]

/-- A key is found in an increasing list exactly with the value that it stands with. -/
private theorem find?_eq_some_iff {es : List (κ × α)}
    (hs : es.Pairwise fun a b => compare a.1 b.1 = .lt) (e : κ × α) :
    (es.find? fun f => compare f.1 e.1 == .eq) = some e ↔ e ∈ es := by
  induction es with
  | nil => simp
  | cons f es ih =>
      obtain ⟨hhead, htail⟩ := List.pairwise_cons.mp hs
      by_cases hf : f = e
      · subst hf
        simp
      · have hne : f.1 = e.1 → e ∉ es := by
          intro hkey he
          have hlt := hhead e he
          simp [hkey] at hlt
        by_cases hkey : f.1 = e.1
        · simp [hkey, hf, Ne.symm hf, hne hkey]
        · have hcmp : (compare f.1 e.1 == .eq) = false := by
            simpa using hkey
          simp [hcmp, Ne.symm hf, ih htail]

/-- Looking up finds exactly the entries of a map. -/
theorem get?_eq_some_iff {m : SortedMap κ α} {k : κ} {v : α} :
    m.get? k = some v ↔ (k, v) ∈ m.entries := by
  rw [← find?_eq_some_iff m.sorted (k, v), get?, Option.map_eq_some_iff]
  constructor
  · rintro ⟨e, he, rfl⟩
    have hkey : compare e.1 k = .eq := by simpa using List.find?_some he
    rw [he, ← Std.LawfulEqOrd.eq_of_compare hkey]
  · intro he
    exact ⟨(k, v), he, rfl⟩

theorem get?_eq_none_iff {m : SortedMap κ α} {k : κ} : m.get? k = none ↔ k ∉ m.keys := by
  rw [Option.eq_none_iff_forall_ne_some]
  simp only [ne_eq, get?_eq_some_iff, keys, List.mem_map, Prod.exists, exists_and_right,
    exists_eq_right, not_exists]

theorem contains_iff_mem_keys {m : SortedMap κ α} {k : κ} : m.contains k = true ↔ k ∈ m.keys := by
  rw [contains, Option.isSome_iff_ne_none, ne_eq, get?_eq_none_iff, not_not]

/-- The entries of a map are distinct. -/
theorem nodup_entries (m : SortedMap κ α) : m.entries.Nodup :=
  m.sorted.imp fun hlt he => by simp [he] at hlt

/-- The keys of a map are distinct. -/
theorem nodup_keys (m : SortedMap κ α) : m.keys.Nodup := by
  rw [keys, List.Nodup, List.pairwise_map]
  exact m.sorted.imp fun hlt hkey => by simp [hkey] at hlt

end Lookup

/-- Maps in which every key finds the same are equal. -/
theorem ext_get? [Std.LawfulEqOrd κ] [Std.OrientedOrd κ] {m n : SortedMap κ α}
    (h : ∀ k, m.get? k = n.get? k) : m = n := by
  have hmem : ∀ e, e ∈ m.entries ↔ e ∈ n.entries := fun e => by
    rw [← get?_eq_some_iff, ← get?_eq_some_iff, h e.1]
  have hperm := (List.perm_ext_iff_of_nodup m.nodup_entries n.nodup_entries).mpr hmem
  refine ext (hperm.eq_of_pairwise (fun a b _ _ hab hba => ?_) m.sorted n.sorted)
  have hgt := Std.OrientedCmp.gt_of_lt hab
  rw [hba] at hgt
  cases hgt

theorem ext_perm [Std.LawfulEqOrd κ] [Std.OrientedOrd κ] {m n : SortedMap κ α}
    (h : m.entries.Perm n.entries) : m = n := by
  refine ext_get? fun k => Option.ext fun v => ?_
  rw [get?_eq_some_iff, get?_eq_some_iff, h.mem_iff]

/-- What was inserted is found under its key, and under the others what was there. -/
theorem get?_insert [Std.LawfulEqOrd κ] [Std.TransOrd κ] [DecidableEq κ] (m : SortedMap κ α)
    (k : κ) (v : α) (l : κ) : (m.insert k v).get? l = if k = l then some v else m.get? l := by
  rcases m with ⟨es, hs⟩
  simp only [get?, insert]
  clear hs
  induction es with
  | nil => by_cases hl : k = l <;> simp [insertEntry, hl]
  | cons e es ih =>
      cases hcompare : compare k e.1 with
      | lt =>
          simp only [insertEntry, hcompare]
          by_cases hl : k = l <;> simp [hl]
      | eq =>
          have hk := Std.LawfulEqOrd.eq_of_compare hcompare
          simp only [insertEntry, hcompare]
          by_cases hl : k = l <;> simp [hl, ← hk]
      | gt =>
          simp only [insertEntry, hcompare]
          by_cases he : e.1 = l
          · have hl : k ≠ l := fun hk => by simp [he, hk] at hcompare
            simp [he, hl]
          · simpa [he] using ih

/-! ## What an insertion adds -/

section Insertion

variable [Std.LawfulEqOrd κ] [Std.TransOrd κ] [DecidableEq κ]

/-- An insertion puts its entry in the place of those with the same key. -/
theorem perm_entries_insert (m : SortedMap κ α) (k : κ) (v : α) :
    (m.insert k v).entries.Perm ((k, v) :: m.entries.filter fun e => e.1 ≠ k) := by
  have hnodup : ((k, v) :: m.entries.filter fun e => e.1 ≠ k).Nodup := by
    simp [m.nodup_entries.filter]
  rw [List.perm_ext_iff_of_nodup (nodup_entries _) hnodup]
  intro ⟨j, w⟩
  rw [← get?_eq_some_iff, get?_insert]
  by_cases hj : k = j
  · simp [hj, eq_comm]
  · simp [hj, Ne.symm hj, get?_eq_some_iff]

theorem perm_entries_insert_of_get?_eq_none {m : SortedMap κ α} {k : κ} (h : m.get? k = none)
    (v : α) : (m.insert k v).entries.Perm ((k, v) :: m.entries) := by
  have hothers : (m.entries.filter fun e => e.1 ≠ k) = m.entries := by
    rw [List.filter_eq_self]
    intro e he
    simp only [ne_eq, decide_not, Bool.not_eq_true', decide_eq_false_iff_not]
    intro hk
    exact get?_eq_none_iff.mp h (hk ▸ List.mem_map_of_mem he)
  have hperm := perm_entries_insert m k v
  rwa [hothers] at hperm

/-- An entry can be taken out of the others. -/
theorem perm_entries_of_get?_eq_some {m : SortedMap κ α} {k : κ} {v : α} (h : m.get? k = some v) :
    m.entries.Perm ((k, v) :: m.entries.filter fun e => e.1 ≠ k) := by
  have hself : m.insert k v = m := by
    refine ext_get? fun j => ?_
    rw [get?_insert]
    by_cases hj : k = j
    · simp [← hj, h]
    · simp [hj]
  simpa [hself] using perm_entries_insert m k v

end Insertion

/-! ## Changing values -/

section Values

variable {β : Type} [Std.LawfulEqOrd κ]

theorem get?_filterMap (f : κ → α → Option β) (m : SortedMap κ α) (k : κ) :
    (m.filterMap f).get? k = (m.get? k).bind (f k) := by
  refine Option.ext fun w => ?_
  rw [get?_eq_some_iff, Option.bind_eq_some_iff, filterMap, List.mem_filterMap]
  constructor
  · rintro ⟨⟨j, v⟩, he, h⟩
    obtain ⟨w', hw, heq⟩ := Option.map_eq_some_iff.mp h
    cases heq
    exact ⟨v, get?_eq_some_iff.mpr he, hw⟩
  · rintro ⟨v, hv, hw⟩
    exact ⟨(k, v), get?_eq_some_iff.mp hv, Option.map_eq_some_iff.mpr ⟨w, hw, rfl⟩⟩

theorem get?_map (g : κ → α → β) (m : SortedMap κ α) (k : κ) :
    (m.map g).get? k = (m.get? k).map (g k) := by
  rw [map, get?_filterMap, Option.map_eq_bind]
  rfl

theorem contains_map (g : κ → α → β) (m : SortedMap κ α) (k : κ) :
    (m.map g).contains k = m.contains k := by
  rw [contains, get?_map, Option.isSome_map, contains]

variable [Std.TransOrd κ] [DecidableEq κ]

theorem map_insert (g : κ → α → β) (m : SortedMap κ α) (k : κ) (v : α) :
    (m.insert k v).map g = (m.map g).insert k (g k v) := by
  refine ext_get? fun j => ?_
  by_cases hj : k = j
  · subst hj
    simp [get?_map, get?_insert]
  · simp [get?_map, get?_insert, hj]

/-- Entries with different keys can be put into a map in either order. -/
theorem insert_comm (m : SortedMap κ α) {j k : κ} (h : j ≠ k) (v w : α) :
    (m.insert j v).insert k w = (m.insert k w).insert j v := by
  refine ext_get? fun l => ?_
  simp only [get?_insert]
  by_cases hj : j = l
  · subst hj
    simp [Ne.symm h]
  · simp [hj]

/-- A new entry that is not kept changes nothing. -/
theorem filterMap_insert_of_none {f : κ → α → Option β} {m : SortedMap κ α} {k : κ} {v : α}
    (hv : f k v = none) (hk : m.get? k = none) :
    (m.insert k v).filterMap f = m.filterMap f := by
  refine ext_get? fun j => ?_
  rw [get?_filterMap, get?_filterMap, get?_insert]
  by_cases hj : k = j
  · subst hj
    simp [hv, hk]
  · simp [hj]

end Values

/-! ## Building a map from its entries -/

/-- A key beyond all others goes to the end. -/
theorem insertEntry_of_forall_lt [Std.OrientedOrd κ] {k : κ} {v : α} {es : List (κ × α)}
    (h : ∀ e ∈ es, compare e.1 k = .lt) : insertEntry k v es = es ++ [(k, v)] := by
  induction es with
  | nil => rfl
  | cons e es ih =>
      have hgt : compare k e.1 = .gt := Std.OrientedCmp.gt_of_lt (h e (by simp))
      rw [insertEntry, hgt]
      simp [ih fun f hf => h f (by simp [hf])]

theorem insert_entries_of_forall_lt [Std.TransOrd κ] {m : SortedMap κ α} {k : κ} {v : α}
    (h : ∀ e ∈ m.entries, compare e.1 k = .lt) : (m.insert k v).entries = m.entries ++ [(k, v)] :=
  insertEntry_of_forall_lt h

theorem ofList_append_singleton [Std.TransOrd κ] (es : List (κ × α)) (e : κ × α) :
    ofList (es ++ [e]) = (ofList es).insert e.1 e.2 := by
  simp [ofList]

/-- A list in key order is the list of entries of its map. -/
theorem entries_ofList [Std.TransOrd κ] {es : List (κ × α)}
    (h : es.Pairwise fun a b => compare a.1 b.1 = .lt) : (ofList es).entries = es := by
  induction es using List.reverseRecOn with
  | nil => rfl
  | append_singleton es e ih =>
      obtain ⟨hes, -, hlast⟩ := List.pairwise_append.mp h
      have hbefore : ∀ f ∈ (ofList es).entries, compare f.1 e.1 = .lt := by
        rw [ih hes]
        exact fun f hf => hlast f hf e (by simp)
      rw [ofList_append_singleton, insert_entries_of_forall_lt hbefore, ih hes]

/-- Of the entries with one key, the last is found. -/
theorem get?_ofList [Std.LawfulEqOrd κ] [Std.TransOrd κ] [DecidableEq κ] (es : List (κ × α))
    (k : κ) : (ofList es).get? k = (es.reverse.find? fun e => e.1 = k).map (·.2) := by
  induction es using List.reverseRecOn with
  | nil => rfl
  | append_singleton es e ih =>
      rw [ofList_append_singleton, get?_insert, ih, List.reverse_append]
      by_cases hk : e.1 = k <;> simp [hk]

/-- If no key is given two values, a map holds all entries that it is made of. -/
theorem get?_ofList_eq_some_iff [Std.LawfulEqOrd κ] [Std.TransOrd κ] [DecidableEq κ]
    {es : List (κ × α)} (h : ∀ e ∈ es, ∀ f ∈ es, e.1 = f.1 → e.2 = f.2) {k : κ} {v : α} :
    (ofList es).get? k = some v ↔ (k, v) ∈ es := by
  rw [get?_ofList, Option.map_eq_some_iff]
  constructor
  · rintro ⟨e, he, rfl⟩
    have hkey : e.1 = k := by simpa using List.find?_some he
    have hmem : e ∈ es := by simpa using List.mem_of_find?_eq_some he
    rw [← hkey]
    exact hmem
  · intro hmem
    cases hfind : es.reverse.find? fun e => e.1 = k with
    | none =>
        have hne := List.find?_eq_none.mp hfind (k, v) (by simpa using hmem)
        simp at hne
    | some e =>
        have hkey : e.1 = k := by simpa using List.find?_some hfind
        have he : e ∈ es := by simpa using List.mem_of_find?_eq_some hfind
        exact ⟨e, rfl, h e he (k, v) hmem hkey⟩

/-- A key beyond all others is not there yet. -/
theorem contains_eq_false_of_forall_lt {m : SortedMap κ α} {k : κ}
    (h : ∀ e ∈ m.entries, compare e.1 k = .lt) : m.contains k = false := by
  have hfind : (m.entries.find? fun e => compare e.1 k == .eq) = none := by
    rw [List.find?_eq_none]
    intro e he
    simp [h e he]
  simp [contains, get?, hfind]

end SortedMap

end BundleCheck
