import BundleCheck.Proofs.Yaml.Reading

/-! # Maps without repeated keys

A map is read exactly if each of its entries is and no key comes twice, and then has these entries.
If a key comes twice, the first one that does so is reported. -/

namespace BundleCheck.Yaml.Source

/-! ## The first repetition -/

/-- In a list with repetitions there is a first item that came before. -/
theorem exists_first_repeated {α : Type} {xs : List α} (h : ¬ xs.Nodup) :
    ∃ before x after, xs = before ++ x :: after ∧ before.Nodup ∧ x ∈ before := by
  induction xs using List.reverseRecOn with
  | nil => simp at h
  | append_singleton xs x ih =>
      by_cases hxs : xs.Nodup
      · have hmem : x ∈ xs := by
          by_contra hnew
          exact h (List.nodup_append.mpr ⟨hxs, List.nodup_singleton x, by
            intro a ha b hb
            rw [List.mem_singleton.mp hb]
            exact fun heq => hnew (heq ▸ ha)⟩)
        exact ⟨xs, x, [], by simp, hxs, hmem⟩
      · obtain ⟨before, y, after, hsplit, hbefore, hy⟩ := ih hxs
        exact ⟨before, y, after ++ [x], by simp [hsplit], hbefore, hy⟩

/-- A key that comes later is not there yet. -/
theorem get?_eq_none_of_nodup {κ α : Type} [Ord κ] [Std.LawfulEqOrd κ] {done : SortedMap κ α}
    {d : κ × α} {ds : List (κ × α)} (h : ((done.entries ++ d :: ds).map Prod.fst).Nodup) :
    done.get? d.1 = none := by
  rw [List.map_append, List.nodup_append] at h
  rw [SortedMap.get?_eq_none_iff]
  exact fun hmem => h.2.2 d.1 hmem d.1 (by simp) rfl

/-! ## Reading entry by entry -/

section Unique

variable {κ α : Type} [Ord κ] [Std.TransOrd κ] {what : String} {keyText : κ → String}
  {readKey : Value → Except Mismatch κ} {readValue : Value → Except Mismatch α} {record : Value}

def ReadsEntries (readKey : Value → Except Mismatch κ) (readValue : Value → Except Mismatch α)
    (es : Mapping) (ds : List (κ × α)) : Prop :=
  List.Forall₂ (fun e d => readKey e.1 = .ok d.1 ∧ readValue e.2 = .ok d.2) es ds

theorem readUnique_cons_eq_ok_iff {done m : SortedMap κ α} {e : Value × Value} {es : Mapping} :
    readUnique what keyText readKey readValue record done (e :: es) = .ok m ↔
      ∃ k v, readKey e.1 = .ok k ∧ done.get? k = none ∧ readValue e.2 = .ok v ∧
        readUnique what keyText readKey readValue record (done.insert k v) es = .ok m := by
  rw [readUnique]
  cases hk : readKey e.1 with
  | error cause => simp [bind, Except.bind]
  | ok k =>
      have hget : done.get? k = none ↔ done.contains k = false := by
        simp [SortedMap.contains]
      rw [ok_bind]
      cases hcontains : done.contains k with
      | true => simp [mismatch, hget, hcontains]
      | false => simp [bind_eq_ok_iff, hget, hcontains]

variable [Std.LawfulEqOrd κ] [DecidableEq κ]

/-- What was read and what comes next make the same entries, put into the map or not. -/
theorem perm_insert_append {done : SortedMap κ α} {k : κ} (h : done.get? k = none) (v : α)
    (ds : List (κ × α)) :
    ((done.insert k v).entries ++ ds).Perm (done.entries ++ (k, v) :: ds) :=
  ((SortedMap.perm_entries_insert_of_get?_eq_none h v).append_right ds).trans
    List.perm_middle.symm

/-- Entries are read exactly if each of them is and all keys are different, and the map then has
what was read before and the entries. -/
theorem readUnique_eq_ok_iff {done m : SortedMap κ α} {es : Mapping} :
    readUnique what keyText readKey readValue record done es = .ok m ↔
      ∃ ds, ReadsEntries readKey readValue es ds ∧ ((done.entries ++ ds).map Prod.fst).Nodup ∧
        m.entries.Perm (done.entries ++ ds) := by
  induction es generalizing done with
  | nil =>
      rw [readUnique]
      constructor
      · intro h
        cases h
        exact ⟨[], .nil, by simpa [SortedMap.keys] using m.nodup_keys, by simp⟩
      · rintro ⟨ds, hds, _, hperm⟩
        cases hds
        rw [SortedMap.ext_perm (by simpa using hperm : m.entries.Perm done.entries)]
        rfl
  | cons e es ih =>
      rw [readUnique_cons_eq_ok_iff]
      constructor
      · rintro ⟨k, v, hk, hget, hv, hrest⟩
        obtain ⟨ds, hds, hnodup, hperm⟩ := ih.mp hrest
        have hall := perm_insert_append hget v ds
        exact ⟨(k, v) :: ds, .cons ⟨hk, hv⟩ hds, (hall.map _).nodup_iff.mp hnodup,
          hperm.trans hall⟩
      · rintro ⟨ds, hds, hnodup, hperm⟩
        cases hds with
        | @cons _ d _ ds hd hds =>
            have hget := get?_eq_none_of_nodup hnodup
            have hall := perm_insert_append hget d.2 ds
            exact ⟨d.1, d.2, hd.1, hget, hd.2, ih.mpr ⟨ds, hds, (hall.map _).nodup_iff.mpr hnodup,
              hperm.trans hall.symm⟩⟩

/-- Entries with different keys make a map. -/
theorem exists_perm_entries {ds : List (κ × α)} (h : (ds.map Prod.fst).Nodup) :
    ∃ m : SortedMap κ α, m.entries.Perm ds := by
  induction ds with
  | nil => exact ⟨.empty, .nil⟩
  | cons d ds ih =>
      rw [List.map_cons, List.nodup_cons] at h
      obtain ⟨m, hm⟩ := ih h.2
      have hget : m.get? d.1 = none := by
        rw [SortedMap.get?_eq_none_iff, SortedMap.keys, (hm.map _).mem_iff]
        exact h.1
      exact ⟨m.insert d.1 d.2,
        (SortedMap.perm_entries_insert_of_get?_eq_none hget d.2).trans (hm.cons d)⟩

/-- A key that came before is reported, if all that stands before it was read. -/
theorem readUnique_of_repeated {done : SortedMap κ α} {before after : Mapping}
    {e : Value × Value} {ds : List (κ × α)} {k : κ} (hds : ReadsEntries readKey readValue before ds)
    (hnodup : ((done.entries ++ ds).map Prod.fst).Nodup) (hk : readKey e.1 = .ok k)
    (hmem : k ∈ (done.entries ++ ds).map Prod.fst) :
    readUnique what keyText readKey readValue record done (before ++ e :: after) =
      .error (.duplicateKey what (keyText k)) := by
  induction before generalizing done ds with
  | nil =>
      cases hds
      have hcontains : done.contains k = true :=
        SortedMap.contains_iff_mem_keys.mpr (by simpa [SortedMap.keys] using hmem)
      rw [List.nil_append, readUnique, hk, ok_bind, if_pos hcontains]
      rfl
  | cons f before ih =>
      cases hds with
      | @cons _ d _ ds hd hds =>
          have hget := get?_eq_none_of_nodup hnodup
          have hcontains : done.contains d.1 = false := by simp [SortedMap.contains, hget]
          have hall := (perm_insert_append hget d.2 ds).map Prod.fst
          rw [List.cons_append, readUnique, hd.1, ok_bind, hcontains, if_neg Bool.false_ne_true,
            hd.2, ok_bind]
          exact ih hds (hall.nodup_iff.mpr hnodup) (hall.mem_iff.mpr hmem)

/-- If the keys are read and are all different, it is a value that cannot be read. -/
theorem readUnique_error_of_nodup {done : SortedMap κ α} {es : Mapping} {ks : List κ}
    (hks : List.Forall₂ (fun e k => readKey e.1 = .ok k) es ks)
    (hnodup : (done.entries.map Prod.fst ++ ks).Nodup) {cause : Mismatch}
    (h : readUnique what keyText readKey readValue record done es = .error cause) :
    ∃ e ∈ es, readValue e.2 = .error cause := by
  induction hks generalizing done with
  | nil => cases h
  | @cons e k es ks hk _ ih =>
      have hget : done.get? k = none := by
        rw [SortedMap.get?_eq_none_iff]
        exact fun hmem => (List.nodup_append.mp hnodup).2.2 k hmem k (by simp) rfl
      have hcontains : done.contains k = false := by simp [SortedMap.contains, hget]
      rw [readUnique, hk, ok_bind, hcontains, if_neg Bool.false_ne_true, bind_eq_error_iff] at h
      rcases h with h | ⟨v, -, h⟩
      · exact ⟨e, by simp, h⟩
      · have hkeys : ((done.insert k v).entries.map Prod.fst ++ ks).Perm
            (done.entries.map Prod.fst ++ k :: ks) := by
          have hinsert := (SortedMap.perm_entries_insert_of_get?_eq_none hget v).map Prod.fst
          exact (hinsert.append_right ks).trans List.perm_middle.symm
        obtain ⟨f, hf, hcause⟩ := ih (hkeys.nodup_iff.mpr hnodup) h
        exact ⟨f, by simp [hf], hcause⟩

end Unique

end BundleCheck.Yaml.Source
