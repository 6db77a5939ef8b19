import BundleCheck.Proofs.Yaml.Sameness
import BundleCheck.Yaml.Source

/-! # Laws of mappings

What is found under a key after a value was stored or removed. Removal moves an entry, so its
law needs that no key comes twice. -/

namespace BundleCheck.Yaml

namespace Mapping

/-! ## Finding -/

@[simp] theorem get?_nil (k : Value) : get? [] k = none :=
  rfl

theorem get?_cons (e : Value × Value) (es : Mapping) (k : Value) :
    get? (e :: es) k = if k.same e.1 then some e.2 else get? es k := by
  by_cases h : k.same e.1 = true <;> simp [get?, h]

theorem exists_mem_of_get?_eq_some {m : Mapping} {k v : Value} (h : m.get? k = some v) :
    ∃ e ∈ m, k.same e.1 = true ∧ e.2 = v := by
  obtain ⟨e, he, rfl⟩ := Option.map_eq_some_iff.mp h
  exact ⟨e, List.mem_of_find?_eq_some he, by simpa using List.find?_some he, rfl⟩

theorem mem_of_getName?_eq_some {m : Mapping} {name : String} {v : Value}
    (h : m.getName? name = some v) : (.string name, v) ∈ m := by
  obtain ⟨e, he, hkey, rfl⟩ := exists_mem_of_get?_eq_some h
  rw [← Value.same_string_iff.mp hkey]
  exact he

theorem DistinctKeys.of_get? {m : Mapping} (hm : m.DistinctKeys) {k v : Value}
    (h : m.get? k = some v) : v.DistinctKeys := by
  obtain ⟨e, he, -, rfl⟩ := exists_mem_of_get?_eq_some h
  exact (hm.parts e he).2

theorem get?_eq_none_iff {m : Mapping} {k : Value} :
    m.get? k = none ↔ ∀ e ∈ m, k.same e.1 = false := by
  simp [get?]

theorem contains_eq_isSome_get? (m : Mapping) (k : Value) : m.contains k = (m.get? k).isSome := by
  induction m with
  | nil => rfl
  | cons e es ih =>
      rw [get?_cons]
      by_cases h : k.same e.1 = true
      · simp [contains, h]
      · simpa [contains, h] using ih

/-- Behind an entry with a key no entry has the same key. -/
theorem DistinctKeys.same_eq_false {f : Value × Value} {fs : Mapping}
    (h : DistinctKeys (f :: fs)) {k : Value} (hk : k.DistinctKeys) (hkf : k.same f.1 = true)
    {e : Value × Value} (he : e ∈ fs) : k.same e.1 = false := by
  obtain ⟨-, hhead, -⟩ := distinctKeys_cons_iff.mp h
  rw [Bool.eq_false_iff]
  intro hke
  have hef : e.1.same f.1 = true := Value.same_trans (Value.same_symm hk hke) hkf
  rw [hhead e he] at hef
  cases hef

/-- Two entries with the same key are one. -/
theorem DistinctKeys.eq_of_same {m : Mapping} (hm : m.DistinctKeys) {a b : Value × Value}
    (ha : a ∈ m) (hb : b ∈ m) (h : a.1.same b.1 = true) : a = b := by
  induction m with
  | nil => cases ha
  | cons f fs ih =>
      obtain ⟨⟨hf, -⟩, hhead, hfs⟩ := distinctKeys_cons_iff.mp hm
      rcases List.mem_cons.mp ha with rfl | hafs
      · rcases List.mem_cons.mp hb with rfl | hbfs
        · rfl
        · rw [hm.same_eq_false hf (Value.same_refl _) hbfs] at h
          cases h
      · rcases List.mem_cons.mp hb with rfl | hbfs
        · rw [hhead a hafs] at h
          cases h
        · exact ih hfs hafs hbfs

/-- With distinct keys an entry is found wherever it stands. -/
theorem get?_eq_some_iff {m : Mapping} (hm : m.DistinctKeys) {k : Value} (hk : k.DistinctKeys)
    {v : Value} : m.get? k = some v ↔ ∃ e ∈ m, k.same e.1 = true ∧ e.2 = v := by
  refine ⟨exists_mem_of_get?_eq_some, ?_⟩
  rintro ⟨e, he, hkey, rfl⟩
  induction m with
  | nil => cases he
  | cons f fs ih =>
      obtain ⟨-, hhead, hfs⟩ := distinctKeys_cons_iff.mp hm
      rw [get?_cons]
      rcases List.mem_cons.mp he with rfl | he
      · rw [if_pos hkey]
      · have hne : k.same f.1 = false := by
          rw [Value.same_congr_left hk hkey]
          exact hhead e he
        simp [hne, ih hfs he]

theorem get?_congr {m : Mapping} {j k : Value} (hj : j.DistinctKeys) (h : j.same k = true) :
    m.get? j = m.get? k := by
  have hfun : (fun e : Value × Value => j.same e.1) = fun e => k.same e.1 :=
    funext fun e => Value.same_congr_left hj h e.1
  rw [get?, get?, hfun]

/-- The order of entries with distinct keys does not matter. -/
theorem get?_perm {m n : Mapping} (hm : m.DistinctKeys) (hn : n.DistinctKeys) (h : m.Perm n)
    {k : Value} (hk : k.DistinctKeys) : m.get? k = n.get? k := by
  apply Option.ext
  intro v
  rw [get?_eq_some_iff hm hk, get?_eq_some_iff hn hk]
  simp only [h.mem_iff]

/-! ## Storing -/

/-- Storing the value that is stored already changes nothing. -/
theorem insert_of_get?_eq_some {m : Mapping} {k v : Value} (h : get? m k = some v) :
    insert k v m = m := by
  induction m with
  | nil => cases h
  | cons e es ih =>
      rw [get?_cons] at h
      by_cases hk : k.same e.1 = true
      · rw [if_pos hk, Option.some.injEq] at h
        rw [insert, if_pos hk, ← h]
      · rw [if_neg hk] at h
        rw [insert, if_neg hk, ih h]

/-- A key that is not there yet is put behind the others. -/
theorem insert_of_get?_eq_none {m : Mapping} {k v : Value} (h : get? m k = none) :
    insert k v m = m ++ [(k, v)] := by
  induction m with
  | nil => rfl
  | cons e es ih =>
      rw [get?_cons] at h
      by_cases hk : k.same e.1 = true
      · simp [hk] at h
      · rw [if_neg hk] at h
        rw [insert, if_neg hk, ih h, List.cons_append]

theorem get?_insert (m : Mapping) {j k : Value} (hj : j.DistinctKeys) (hk : k.DistinctKeys)
    (v : Value) : get? (insert k v m) j = if j.same k then some v else get? m j := by
  induction m with
  | nil => rw [insert, get?_cons]
  | cons e es ih =>
      rw [insert, get?_cons]
      by_cases hke : k.same e.1 = true
      · rw [if_pos hke, get?_cons]
        by_cases hjk : j.same k = true
        · rw [if_pos hjk, if_pos (Value.same_trans hjk hke)]
        · have hje : ¬ j.same e.1 = true := fun h =>
            hjk (Value.same_trans h (Value.same_symm hk hke))
          rw [if_neg hjk, if_neg hje, if_neg hje]
      · rw [if_neg hke, get?_cons, ih]
        by_cases hje : j.same e.1 = true
        · have hjk : ¬ j.same k = true := fun h =>
            hke (Value.same_trans (Value.same_symm hj h) hje)
          rw [if_pos hje, if_pos hje, if_neg hjk]
        · rw [if_neg hje, if_neg hje]

theorem get?_insert_self (m : Mapping) {k : Value} (hk : k.DistinctKeys) (v : Value) :
    get? (insert k v m) k = some v := by
  rw [get?_insert m hk hk, if_pos (Value.same_refl k)]

theorem get?_insert_of_same_eq_false (m : Mapping) {j k : Value} (hj : j.DistinctKeys)
    (hk : k.DistinctKeys) (h : j.same k = false) (v : Value) :
    get? (insert k v m) j = get? m j := by
  rw [get?_insert m hj hk, h, if_neg Bool.false_ne_true]

/-- An entry after storing was there before, or holds what was stored. -/
theorem mem_of_mem_insert {m : Mapping} {k v : Value} {e : Value × Value}
    (he : e ∈ insert k v m) : e ∈ m ∨ k.same e.1 = true ∧ e.2 = v := by
  induction m with
  | nil =>
      rw [List.mem_singleton.mp he]
      exact .inr ⟨Value.same_refl k, rfl⟩
  | cons f fs ih =>
      rw [insert] at he
      by_cases hkf : k.same f.1 = true
      · rw [if_pos hkf] at he
        rcases List.mem_cons.mp he with rfl | he
        · exact .inr ⟨hkf, rfl⟩
        · exact .inl (by simp [he])
      · rw [if_neg hkf] at he
        rcases List.mem_cons.mp he with rfl | he
        · exact .inl (by simp)
        · exact (ih he).imp_left (by simp +contextual)

theorem containsName_insert (m : Mapping) (k v : Value) (name : String) :
    containsName (insert k v m) name = (m.containsName name || (Value.string name).same k) := by
  rw [containsName, containsName]
  induction m with
  | nil => simp [insert, contains]
  | cons e es ih =>
      rw [insert]
      by_cases hk : k.same e.1 = true
      · by_cases hname : (Value.string name).same k = true
        · have he : (Value.string name).same e.1 = true := Value.same_trans hname hk
          simp [hk, hname, he, contains]
        · simp [hk, hname, contains]
      · simp only [hk, Bool.false_eq_true, if_false]
        simpa [contains, Bool.or_assoc] using congrArg _ ih

theorem containsName_insert_eq_self {m : Mapping} {k v : Value} {name : String}
    (h : (Value.string name).same k = true → m.containsName name = true) :
    containsName (insert k v m) name = m.containsName name := by
  rw [containsName_insert]
  cases hname : (Value.string name).same k with
  | true => simp [h hname]
  | false => simp

theorem map_fst_insert {m : Mapping} {k v w : Value} (h : get? m k = some w) :
    (insert k v m).map Prod.fst = m.map Prod.fst := by
  induction m with
  | nil => cases h
  | cons e es ih =>
      rw [get?_cons] at h
      by_cases hk : k.same e.1 = true
      · rw [insert, if_pos hk, List.map_cons, List.map_cons]
      · rw [if_neg hk] at h
        rw [insert, if_neg hk, List.map_cons, List.map_cons, ih h]

theorem pairwise_keys_iff {m : Mapping} :
    (m.Pairwise fun a b => b.1.same a.1 = false) ↔
      (m.map Prod.fst).Pairwise fun k l => l.same k = false := by
  rw [List.pairwise_map]

/-- The key with which a value is stored: one that is there already is kept. -/
def storedKey (m : Mapping) (k : Value) : Value :=
  ((m.find? fun e => k.same e.1).map (·.1)).getD k

theorem mem_insert_iff {m : Mapping} (hm : m.DistinctKeys) {k v : Value} (hk : k.DistinctKeys)
    {e : Value × Value} :
    e ∈ insert k v m ↔ (e ∈ m ∧ k.same e.1 = false) ∨ e = (storedKey m k, v) := by
  induction m with
  | nil => simp [insert, storedKey]
  | cons f fs ih =>
      obtain ⟨-, -, hfs⟩ := distinctKeys_cons_iff.mp hm
      rw [insert]
      by_cases hkf : k.same f.1 = true
      · have hkey : storedKey (f :: fs) k = f.1 := by simp [storedKey, hkf]
        rw [if_pos hkf, hkey, List.mem_cons, List.mem_cons]
        constructor
        · rintro (rfl | he)
          · exact .inr rfl
          · exact .inl ⟨.inr he, hm.same_eq_false hk hkf he⟩
        · rintro (⟨rfl | he, hke⟩ | rfl)
          · rw [hkf] at hke
            cases hke
          · exact .inr he
          · exact .inl rfl
      · have hkey : storedKey (f :: fs) k = storedKey fs k := by simp [storedKey, hkf]
        rw [if_neg hkf, hkey, List.mem_cons, List.mem_cons, ih hfs]
        constructor
        · rintro (rfl | ⟨he, hke⟩ | rfl)
          · exact .inl ⟨.inl rfl, Bool.eq_false_iff.mpr hkf⟩
          · exact .inl ⟨.inr he, hke⟩
          · exact .inr rfl
        · rintro (⟨rfl | he, hke⟩ | rfl)
          · exact .inl rfl
          · exact .inr (.inl ⟨he, hke⟩)
          · exact .inr (.inr rfl)

/-- A value is stored with a key that is there already, or else with the new one. -/
theorem storedKey_cases (m : Mapping) (k : Value) :
    (∃ e ∈ m, k.same e.1 = true ∧ storedKey m k = e.1) ∨
      (∀ e ∈ m, k.same e.1 = false) ∧ storedKey m k = k := by
  unfold storedKey
  cases hfind : m.find? fun e => k.same e.1 with
  | none => exact .inr ⟨by simpa using hfind, rfl⟩
  | some e =>
      exact .inl ⟨e, List.mem_of_find?_eq_some hfind, by simpa using List.find?_some hfind, rfl⟩

theorem DistinctKeys.insert {m : Mapping} (hm : m.DistinctKeys) {k v : Value}
    (hk : k.DistinctKeys) (hv : v.DistinctKeys) : (Mapping.insert k v m).DistinctKeys := by
  constructor
  · intro e he
    rcases (mem_insert_iff hm hk).mp he with ⟨he, -⟩ | rfl
    · exact hm.parts e he
    · have hkey : (storedKey m k).DistinctKeys := by
        rcases storedKey_cases m k with ⟨f, hf, -, hkey⟩ | ⟨-, hkey⟩
        · rw [hkey]
          exact (hm.parts f hf).1
        · rw [hkey]
          exact hk
      exact ⟨hkey, hv⟩
  · cases hget : m.get? k with
    | some w =>
        rw [pairwise_keys_iff, map_fst_insert hget]
        exact pairwise_keys_iff.mp hm.keys
    | none =>
        rw [insert_of_get?_eq_none hget, List.pairwise_append]
        refine ⟨hm.keys, List.pairwise_singleton .., fun a ha b hb => ?_⟩
        rw [List.mem_singleton.mp hb]
        exact get?_eq_none_iff.mp hget a ha

/-! ## Removing -/

/-- Removal erases an entry, and the entries left come in another order. -/
theorem remove_perm (k : Value) (m : Mapping) :
    (remove k m).Perm (m.eraseP fun e => k.same e.1) := by
  induction m with
  | nil => exact .nil
  | cons e es ih =>
      by_cases hk : k.same e.1 = true
      · rw [remove, if_pos hk, List.eraseP_cons, hk, cond_true]
        rcases List.eq_nil_or_concat es with rfl | ⟨front, last, rfl⟩
        · exact .nil
        · simpa using (List.perm_append_singleton last front).symm
      · rw [remove, if_neg hk, List.eraseP_cons, Bool.eq_false_iff.mpr hk, cond_false]
        exact ih.cons e

theorem mem_of_mem_remove {m : Mapping} {k : Value} {e : Value × Value} (he : e ∈ remove k m) :
    e ∈ m :=
  List.eraseP_subset ((remove_perm k m).mem_iff.mp he)

theorem DistinctKeys.sublist {m n : Mapping} (hm : m.DistinctKeys) (h : n.Sublist m) :
    n.DistinctKeys :=
  ⟨fun e he => hm.parts e (h.subset he), hm.keys.sublist h⟩

theorem DistinctKeys.perm {m n : Mapping} (hm : m.DistinctKeys) (h : m.Perm n) :
    n.DistinctKeys := by
  refine ⟨fun e he => hm.parts e (h.mem_iff.mpr he), ?_⟩
  -- On the keys of the mapping the relation is symmetric.
  have hboth : m.Pairwise fun a b => b.1.same a.1 = false ∧ a.1.same b.1 = false := by
    refine hm.keys.imp_of_mem fun {a b} ha hb hab => ⟨hab, ?_⟩
    rw [Value.same_comm (hm.parts a ha).1 (hm.parts b hb).1]
    exact hab
  exact (hboth.perm h And.symm).imp And.left

theorem DistinctKeys.remove {m : Mapping} (hm : m.DistinctKeys) (k : Value) :
    (Mapping.remove k m).DistinctKeys :=
  (hm.sublist List.eraseP_sublist).perm (remove_perm k m).symm

/-- Steps that keep the keys of a mapping distinct do so one after the other. -/
theorem DistinctKeys.foldl {step : Mapping → Value × Value → Mapping}
    (hstep : ∀ {m : Mapping} {e : Value × Value}, m.DistinctKeys →
      e.1.DistinctKeys ∧ e.2.DistinctKeys → (step m e).DistinctKeys)
    {m new : Mapping} (hm : m.DistinctKeys) (hnew : new.DistinctKeys) :
    DistinctKeys (new.foldl step m) :=
  List.foldlRecOn new step hm fun _ hm e he => hstep hm (hnew.parts e he)

theorem mem_remove_iff {m : Mapping} (hm : m.DistinctKeys) {k : Value} (hk : k.DistinctKeys)
    {e : Value × Value} : e ∈ remove k m ↔ e ∈ m ∧ k.same e.1 = false := by
  rw [(remove_perm k m).mem_iff]
  induction m with
  | nil => simp
  | cons f fs ih =>
      obtain ⟨-, -, hfs⟩ := distinctKeys_cons_iff.mp hm
      rw [List.eraseP_cons, List.mem_cons]
      by_cases hkf : k.same f.1 = true
      · rw [hkf, cond_true]
        constructor
        · exact fun he => ⟨.inr he, hm.same_eq_false hk hkf he⟩
        · rintro ⟨rfl | he, hke⟩
          · rw [hkf] at hke
            cases hke
          · exact he
      · rw [Bool.eq_false_iff.mpr hkf, cond_false, List.mem_cons, ih hfs]
        constructor
        · rintro (rfl | ⟨he, hke⟩)
          · exact ⟨.inl rfl, Bool.eq_false_iff.mpr hkf⟩
          · exact ⟨.inr he, hke⟩
        · rintro ⟨rfl | he, hke⟩
          · exact .inl rfl
          · exact .inr ⟨he, hke⟩

theorem get?_eraseP {m : Mapping} (hm : m.DistinctKeys) {j k : Value} (hj : j.DistinctKeys)
    (hk : k.DistinctKeys) : get? (m.eraseP fun e => k.same e.1) j =
      if j.same k then none else get? m j := by
  induction m with
  | nil => simp
  | cons e es ih =>
      obtain ⟨⟨he, -⟩, hhead, hes⟩ := distinctKeys_cons_iff.mp hm
      by_cases hke : k.same e.1 = true
      · rw [List.eraseP_cons, hke, cond_true, get?_cons]
        by_cases hjk : j.same k = true
        · rw [if_pos hjk, get?_congr hj (Value.same_trans hjk hke), get?_eq_none_iff]
          intro f hf
          rw [Value.same_comm he (hes.parts f hf).1]
          exact hhead f hf
        · have hje : ¬ j.same e.1 = true := fun h =>
            hjk (Value.same_trans h (Value.same_symm hk hke))
          rw [if_neg hjk, if_neg hje]
      · rw [List.eraseP_cons, Bool.eq_false_iff.mpr hke, cond_false, get?_cons, get?_cons, ih hes]
        by_cases hje : j.same e.1 = true
        · have hjk : ¬ j.same k = true := fun h =>
            hke (Value.same_trans (Value.same_symm hj h) hje)
          rw [if_pos hje, if_neg hjk, if_pos hje]
        · rw [if_neg hje, if_neg hje]

theorem get?_remove {m : Mapping} (hm : m.DistinctKeys) {j k : Value} (hj : j.DistinctKeys)
    (hk : k.DistinctKeys) : get? (remove k m) j = if j.same k then none else get? m j := by
  rw [get?_perm (hm.remove k) (hm.sublist List.eraseP_sublist) (remove_perm k m) hj,
    get?_eraseP hm hj hk]

/-- Removing a key that is not there changes nothing. -/
theorem remove_of_get?_eq_none {m : Mapping} {k : Value} (h : get? m k = none) :
    remove k m = m := by
  induction m with
  | nil => rfl
  | cons e es ih =>
      rw [get?_cons] at h
      by_cases hk : k.same e.1 = true
      · simp [hk] at h
      · rw [if_neg hk] at h
        rw [remove, if_neg hk, ih h]

/-! ## The entry at a position -/

section Position

variable {before after : Mapping} {e : Value × Value} {k : Value}
  (hbefore : ∀ b ∈ before, k.same b.1 = false) (he : k.same e.1 = true)

include hbefore he

theorem get?_append_cons : get? (before ++ e :: after) k = some e.2 := by
  induction before with
  | nil => simp [get?_cons, he]
  | cons b before ih =>
      rw [List.forall_mem_cons] at hbefore
      simp [get?_cons, hbefore.1, ih hbefore.2]

theorem insert_append_cons (v : Value) :
    insert k v (before ++ e :: after) = before ++ (e.1, v) :: after := by
  induction before with
  | nil => simp [insert, he]
  | cons b before ih =>
      rw [List.forall_mem_cons] at hbefore
      simp [insert, hbefore.1, ih hbefore.2]

theorem remove_append_cons_perm : (remove k (before ++ e :: after)).Perm (before ++ after) := by
  have herase : (before ++ e :: after).eraseP (fun f => k.same f.1) = before ++ after := by
    rw [List.eraseP_append_right _ fun b hb => by simp [hbefore b hb]]
    simp [he]
  rw [← herase]
  exact remove_perm k _

end Position

end Mapping

/-! ## The entries of a value -/

theorem entries?_withEntries (v : Value) (es : Mapping) :
    (v.withEntries es).entries? = some es := by
  induction v using Value.treeInduction with
  | tagged tag v ih => exact ih
  | _ => rfl

theorem isNull_withEntries (v : Value) (es : Mapping) : (v.withEntries es).isNull = false := by
  induction v using Value.treeInduction with
  | tagged tag v ih => exact ih
  | _ => rfl

theorem withEntries_withEntries (v : Value) (es fs : Mapping) :
    (v.withEntries es).withEntries fs = v.withEntries fs := by
  induction v using Value.treeInduction with
  | tagged tag w ih => exact congrArg (Value.tagged tag) ih
  | _ => rfl

theorem withEntries_of_entries? {v : Value} {es : Mapping} (h : v.entries? = some es) :
    v.withEntries es = v := by
  induction v using Value.treeInduction with
  | tagged tag w ih => exact congrArg (Value.tagged tag) (ih h)
  | mapping entries =>
      cases h
      rfl
  | _ => cases h

theorem distinctKeys_withEntries {v : Value} {es : Mapping} (hes : es.DistinctKeys) :
    (v.withEntries es).DistinctKeys := by
  induction v using Value.treeInduction with
  | tagged tag v ih => exact ih
  | _ => exact Value.distinctKeys_mapping_iff.mpr hes

theorem distinctKeys_of_entries? {v : Value} {es : Mapping} (hv : v.DistinctKeys)
    (h : v.entries? = some es) : es.DistinctKeys := by
  induction v using Value.treeInduction with
  | tagged tag v ih => exact ih hv h
  | mapping entries =>
      cases h
      exact Value.distinctKeys_mapping_iff.mp hv
  | _ => cases h

/-! ## Values without tags -/

namespace Value

theorem isUntagged_mapping_iff {m : Mapping} : (Value.mapping m).isUntagged = true ↔
    ∀ e ∈ m, e.1.isUntagged = true ∧ e.2.isUntagged = true := by
  rw [isUntagged]
  induction m with
  | nil => simp [areUntaggedEntries]
  | cons e es ih => simp [areUntaggedEntries, ih]

theorem isUntagged_sequence_iff {items : List Value} :
    (Value.sequence items).isUntagged = true ↔ ∀ v ∈ items, v.isUntagged = true := by
  rw [isUntagged]
  induction items with
  | nil => simp [areUntagged]
  | cons v vs ih => simp [areUntagged, ih]

theorem eq_mapping_of_entries? {v : Value} {es : Mapping} (hv : v.isUntagged = true)
    (h : v.entries? = some es) : v = .mapping es := by
  cases v with
  | mapping fs =>
      cases h
      rfl
  | tagged tag w => cases hv
  | _ => cases h

theorem eq_string_of_text? {v : Value} {s : String} (hv : v.isUntagged = true)
    (h : v.text? = some s) : v = .string s := by
  cases v with
  | string t =>
      cases h
      rfl
  | tagged tag w => cases hv
  | _ => cases h

theorem isUntagged_of_get? {m : Mapping} (hm : (Value.mapping m).isUntagged = true) {k v : Value}
    (h : m.get? k = some v) : v.isUntagged = true := by
  obtain ⟨e, he, -, rfl⟩ := Mapping.exists_mem_of_get?_eq_some h
  exact (isUntagged_mapping_iff.mp hm e he).2

end Value

end BundleCheck.Yaml
