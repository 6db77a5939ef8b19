import BundleCheck.Proofs.SortedMap

/-! # Searching in key order

A map that is made of a list holds, for each key, the last value that the list gives to it. A tree
that stores the entries of a map in key order finds them by comparisons alone, whatever its
shape. -/

namespace BundleCheck

variable {κ α γ : Type}

/-! ## Last values -/

/-- Some item gives the value to the key, and no item behind it gives the key a value. -/
def LastGives (gives : γ → κ → α → Prop) (items : List γ) (k : κ) (v : α) : Prop :=
  ∃ front item back, items = front ++ item :: back ∧ gives item k v ∧
    ∀ other ∈ back, ∀ w, ¬ gives other k w

theorem lastGives_append_singleton {gives : γ → κ → α → Prop} {items : List γ} {item : γ} {k : κ}
    {v : α} : LastGives gives (items ++ [item]) k v ↔
      gives item k v ∨ (∀ w, ¬ gives item k w) ∧ LastGives gives items k v := by
  constructor
  · rintro ⟨front, found, back, hsplit, hfound, hback⟩
    cases back using List.reverseRecOn with
    | nil =>
        obtain ⟨-, hlast⟩ := List.append_inj' hsplit rfl
        cases hlast
        exact .inl hfound
    | append_singleton back last =>
        rw [← List.cons_append, ← List.append_assoc] at hsplit
        obtain ⟨rfl, hlast⟩ := List.append_inj' hsplit rfl
        cases hlast
        refine .inr ⟨hback item (by simp), front, found, back, rfl, hfound, fun other hother => ?_⟩
        exact hback other (by simp [hother])
  · rintro (h | ⟨hitem, front, found, back, rfl, hfound, hback⟩)
    · exact ⟨items, item, [], rfl, h, nofun⟩
    · refine ⟨front, found, back ++ [item], by simp, hfound, fun other hother => ?_⟩
      rcases List.mem_append.mp hother with hother | hother
      · exact hback other hother
      · rw [List.mem_singleton.mp hother]
        exact hitem

/-- A key has a last value exactly if some item gives it one. -/
theorem exists_lastGives_iff {gives : γ → κ → α → Prop} {items : List γ} {k : κ} :
    (∃ v, LastGives gives items k v) ↔ ∃ item ∈ items, ∃ v, gives item k v := by
  induction items using List.reverseRecOn with
  | nil => simp [LastGives]
  | append_singleton items item ih =>
      simp only [lastGives_append_singleton, exists_or, exists_and_left, ih, List.mem_append,
        List.mem_singleton, or_and_right, exists_eq_left]
      by_cases hitem : ∃ v, gives item k v
      · simp [hitem]
      · simp [not_exists.mp hitem]

/-- An entry gives its value to its key. -/
theorem lastGives_entry_iff {es : List (κ × α)} {k : κ} {v : α} :
    LastGives (fun e k v => e = (k, v)) es k v ↔
      ∃ front back, es = front ++ (k, v) :: back ∧ ∀ e ∈ back, e.1 ≠ k := by
  constructor
  · rintro ⟨front, _, back, hsplit, rfl, hback⟩
    refine ⟨front, back, hsplit, fun e he hkey => hback e he e.2 ?_⟩
    rw [← hkey]
  · rintro ⟨front, back, hsplit, hback⟩
    refine ⟨front, (k, v), back, hsplit, rfl, fun e he w hw => hback e he ?_⟩
    rw [hw]

namespace SortedMap

variable [Ord κ] [Std.LawfulEqOrd κ] [Std.TransOrd κ] [DecidableEq κ]

/-- A map holds the last value that the list it is made of gives to a key. -/
theorem get?_ofList_filterMap_eq_some_iff {f : γ → Option (κ × α)} {items : List γ} {k : κ}
    {v : α} : (ofList (items.filterMap f)).get? k = some v ↔
      LastGives (fun item k v => f item = some (k, v)) items k v := by
  induction items using List.reverseRecOn with
  | nil => simp [LastGives, ofList, get?, empty]
  | append_singleton items item ih =>
      rw [lastGives_append_singleton, ← ih, List.filterMap_append]
      cases hitem : f item with
      | none => simp [hitem]
      | some entry =>
          obtain ⟨j, w⟩ := entry
          have hone : [item].filterMap f = [(j, w)] := by simp [hitem]
          rw [hone, ofList_append_singleton, get?_insert]
          by_cases hj : j = k
          · simp [hj]
          · simp [hj]

theorem get?_ofList_eq_some_iff_lastGives {es : List (κ × α)} {k : κ} {v : α} :
    (ofList es).get? k = some v ↔ LastGives (fun e k v => e = (k, v)) es k v := by
  have hlast : (ofList (es.filterMap some)).get? k = some v ↔
      LastGives (fun e k v => some e = some (k, v)) es k v := get?_ofList_filterMap_eq_some_iff
  simpa only [List.filterMap_some, Option.some.injEq] using hlast

/-- The map of a list holds the last entry with a key. -/
theorem get?_ofList_eq_some_iff_last {es : List (κ × α)} {k : κ} {v : α} :
    (ofList es).get? k = some v ↔
      ∃ front back, es = front ++ (k, v) :: back ∧ ∀ e ∈ back, e.1 ≠ k := by
  rw [get?_ofList_eq_some_iff_lastGives, lastGives_entry_iff]

/-- The map of a list has exactly the keys of the list. -/
theorem contains_ofList_iff {es : List (κ × α)} {k : κ} :
    (ofList es).contains k = true ↔ k ∈ es.map Prod.fst := by
  rw [contains, Option.isSome_iff_exists]
  simp only [get?_ofList_eq_some_iff_lastGives, exists_lastGives_iff, List.mem_map]
  constructor
  · rintro ⟨e, he, v, rfl⟩
    exact ⟨_, he, rfl⟩
  · rintro ⟨e, he, rfl⟩
    exact ⟨e, he, e.2, rfl⟩

end SortedMap

/-! ## Search trees -/

inductive SearchTree (κ α : Type)
  | leaf
  | node (left : SearchTree κ α) (key : κ) (value : α) (right : SearchTree κ α)

namespace SearchTree

def entries : SearchTree κ α → List (κ × α)
  | leaf => []
  | node left key value right => left.entries ++ (key, value) :: right.entries

variable [Ord κ]

/-- Goes left of the keys beyond the one that is looked for, and right of those before it. -/
def find? (k : κ) : SearchTree κ α → Option α
  | leaf => none
  | node left key value right =>
      match compare k key with
      | .lt => left.find? k
      | .eq => some value
      | .gt => right.find? k

variable [Std.LawfulEqOrd κ] [Std.TransOrd κ]

/-- In a tree that is in key order, a search meets every entry. -/
theorem find?_eq_some_iff {t : SearchTree κ α}
    (h : t.entries.Pairwise fun a b => compare a.1 b.1 = .lt) {k : κ} {v : α} :
    t.find? k = some v ↔ (k, v) ∈ t.entries := by
  induction t with
  | leaf => simp [find?, entries]
  | node left key value right ihl ihr =>
      obtain ⟨hl, hr, hbefore⟩ := List.pairwise_append.mp h
      obtain ⟨hbeyond, hr⟩ := List.pairwise_cons.mp hr
      rw [find?, entries, List.mem_append, List.mem_cons, Prod.mk.injEq]
      have hlt : (k, v) ∈ left.entries → compare k key = .lt := fun hmem =>
        hbefore (k, v) hmem (key, value) (by simp)
      have hgt : (k, v) ∈ right.entries → compare k key = .gt := fun hmem =>
        Std.OrientedCmp.gt_of_lt (hbeyond (k, v) hmem)
      have heq : compare k key = .eq ↔ k = key := Std.LawfulEqCmp.compare_eq_iff_eq
      cases hcompare : compare k key with
      | lt =>
          have hkey : k ≠ key := by simpa [hcompare] using heq
          have hright : (k, v) ∉ right.entries := by simpa [hcompare] using hgt
          simp [ihl hl, hkey, hright]
      | eq =>
          have hleft : (k, v) ∉ left.entries := by simpa [hcompare] using hlt
          have hright : (k, v) ∉ right.entries := by simpa [hcompare] using hgt
          obtain rfl := heq.mp hcompare
          simp [hleft, hright, eq_comm]
      | gt =>
          have hkey : k ≠ key := by simpa [hcompare] using heq
          have hleft : (k, v) ∉ left.entries := by simpa [hcompare] using hlt
          simp [ihr hr, hkey, hleft]

/-- A tree that stores the entries of a map finds what the map holds. -/
theorem find?_eq_get? {t : SearchTree κ α} {m : SortedMap κ α} (h : t.entries = m.entries) (k : κ) :
    t.find? k = m.get? k := by
  refine Option.ext fun v => ?_
  have hsorted := m.sorted
  rw [← h] at hsorted
  rw [find?_eq_some_iff hsorted, h, SortedMap.get?_eq_some_iff]

end SearchTree

end BundleCheck
