import BundleCheck.Overlay
import BundleCheck.Proofs.Yaml.Mapping

/-! # Merging mappings

What a merged mapping holds under a key depends only on what the base and the overlay hold under
this key. This is so at each level of a document: for the entries of a field, the fields of a part
and the parts of a section. -/

namespace BundleCheck.Overlay

open Yaml

/-! ## Merging key by key -/

/-- What a key holds after a merge, by what the base and the overlay hold under it. -/
def mergedUnder (merged : Value → Option Value → Value → Option Value) (k : Value)
    (old new : Option Value) : Option Value :=
  match new with
  | some v => merged k old v
  | none => old

/-- A step that merges one entry changes what the entry's key holds, and nothing else. -/
structure KeyLocal (step : Mapping → Value × Value → Mapping)
    (merged : Value → Option Value → Value → Option Value) : Prop where
  distinctKeys : ∀ {m : Mapping} {e : Value × Value}, m.DistinctKeys →
    e.1.DistinctKeys ∧ e.2.DistinctKeys → (step m e).DistinctKeys
  get? : ∀ {m : Mapping} {e : Value × Value} {k : Value}, m.DistinctKeys →
    e.1.DistinctKeys ∧ e.2.DistinctKeys → k.DistinctKeys →
      (step m e).get? k = if k.same e.1 then merged k (m.get? k) e.2 else m.get? k

namespace KeyLocal

variable {step : Mapping → Value × Value → Mapping}
  {merged : Value → Option Value → Value → Option Value}

theorem foldl_distinctKeys (h : KeyLocal step merged) {m new : Mapping} (hm : m.DistinctKeys)
    (hnew : new.DistinctKeys) : Mapping.DistinctKeys (new.foldl step m) :=
  hm.foldl h.distinctKeys hnew

/-- Merging all entries merges what each key holds. -/
theorem get?_foldl (h : KeyLocal step merged) {m new : Mapping} (hm : m.DistinctKeys)
    (hnew : new.DistinctKeys) {k : Value} (hk : k.DistinctKeys) :
    Mapping.get? (new.foldl step m) k = mergedUnder merged k (m.get? k) (new.get? k) := by
  induction new generalizing m with
  | nil => rfl
  | cons e es ih =>
      obtain ⟨he, -, hes⟩ := Mapping.distinctKeys_cons_iff.mp hnew
      rw [List.foldl_cons, ih (h.distinctKeys hm he) hes, h.get? hm he hk, Mapping.get?_cons]
      by_cases hke : k.same e.1 = true
      · have hnone : Mapping.get? es k = none :=
          Mapping.get?_eq_none_iff.mpr fun _ => hnew.same_eq_false hk hke
        rw [if_pos hke, if_pos hke, hnone]
        rfl
      · rw [if_neg hke, if_neg hke]

end KeyLocal

/-! ## Entries of a field -/

/-- A null removes a key, and another value replaces what the key held. -/
def mergedKey (_ : Value) (_ : Option Value) (new : Value) : Option Value :=
  if new.isNull then none else some new

theorem keyLocal_mergeKey : KeyLocal mergeKey mergedKey where
  distinctKeys {m e} hm he := by
    unfold mergeKey
    split
    · exact hm.remove e.1
    · exact hm.insert he.1 he.2
  get? {m e k} hm he hk := by
    unfold mergeKey mergedKey
    by_cases hnull : e.2.isNull = true
    · simp [hnull, Mapping.get?_remove hm hk he.1]
    · simp [hnull, Mapping.get?_insert m hk he.1]

/-! ## Fields of a part -/

def keywiseKey (k : Value) : Bool :=
  k.text?.any isKeywise

def mergedField (k : Value) (old : Option Value) (new : Value) : Value :=
  match keywiseKey k, old, new with
  | true, some (.mapping existing), .mapping incoming =>
      .mapping (incoming.foldl mergeKey existing)
  | _, _, _ => new

theorem text?_eq_of_same {k l : Value} (h : k.same l = true) : k.text? = l.text? := by
  induction k using Value.treeInduction generalizing l with
  | null => rw [Value.same_null_iff.mp h]
  | bool b => rw [Value.same_bool_iff.mp h]
  | string s => rw [Value.same_string_iff.mp h]
  | number n =>
      obtain ⟨m, rfl, -⟩ := Value.same_number_iff.mp h
      rfl
  | sequence xs =>
      obtain ⟨ys, rfl, -⟩ := Value.same_sequence_iff.mp h
      rfl
  | mapping es =>
      obtain ⟨fs, rfl, -⟩ := Value.same_mapping_iff.mp h
      rfl
  | tagged tag v ih =>
      obtain ⟨t, w, rfl, -, hw⟩ := Value.same_tagged_iff.mp h
      exact (ih hw : v.text? = w.text?)

theorem keywiseKey_eq_of_same {k l : Value} (h : k.same l = true) :
    keywiseKey k = keywiseKey l := by
  rw [keywiseKey, keywiseKey, text?_eq_of_same h]

/-- One field is merged by storing what it then holds. -/
theorem mergeField_eq (m : Mapping) (e : Value × Value) :
    mergeField m e = m.insert e.1 (mergedField e.1 (m.get? e.1) e.2) := by
  unfold mergedField mergeField keywiseKey
  split <;> simp_all

theorem distinctKeys_mergedField {k new : Value} {old : Option Value}
    (hold : ∀ v, old = some v → v.DistinctKeys) (hnew : new.DistinctKeys) :
    (mergedField k old new).DistinctKeys := by
  unfold mergedField
  split
  next existing incoming _ =>
    have hexisting := Value.distinctKeys_mapping_iff.mp (hold (.mapping existing) rfl)
    have hincoming := Value.distinctKeys_mapping_iff.mp hnew
    exact Value.distinctKeys_mapping_iff.mpr
      (keyLocal_mergeKey.foldl_distinctKeys hexisting hincoming)
  · exact hnew

theorem keyLocal_mergeField :
    KeyLocal mergeField fun k old new => some (mergedField k old new) where
  distinctKeys {m e} hm he := by
    rw [mergeField_eq]
    exact hm.insert he.1 (distinctKeys_mergedField (fun _ => hm.of_get?) he.2)
  get? {m e k} hm he hk := by
    rw [mergeField_eq, Mapping.get?_insert m hk he.1]
    by_cases hke : k.same e.1 = true
    · have hfield : mergedField k (m.get? k) e.2 = mergedField e.1 (m.get? e.1) e.2 := by
        unfold mergedField
        rw [keywiseKey_eq_of_same hke, Mapping.get?_congr hk hke]
      rw [if_pos hke, if_pos hke, hfield]
    · rw [if_neg hke, if_neg hke]

/-- Merging fields into no fields gives these fields. -/
theorem mergeFields_append {m fields : Mapping} (h : (m ++ fields).DistinctKeys) :
    mergeFields m fields = m ++ fields := by
  induction fields generalizing m with
  | nil => simp [mergeFields]
  | cons e es ih =>
      have hnone : m.get? e.1 = none := by
        rw [Mapping.get?_eq_none_iff]
        intro f hf
        exact (List.pairwise_append.mp h.keys).2.2 f hf e (by simp)
      have hnew : mergedField e.1 none e.2 = e.2 := by
        unfold mergedField
        split <;> simp_all
      rw [mergeFields, List.foldl_cons, mergeField_eq, hnone, hnew,
        Mapping.insert_of_get?_eq_none hnone]
      simpa [mergeFields] using ih (m := m ++ [e]) (by simpa using h)

theorem mergeFields_nil {fields : Mapping} (h : fields.DistinctKeys) :
    mergeFields [] fields = fields :=
  mergeFields_append (m := []) h

/-! ## Parts of a section -/

/-- The fields of a part that is a mapping; other parts have none. -/
def fieldsOf : Option Value → Mapping
  | some (.mapping fields) => fields
  | _ => []

theorem fieldsOf_eq_nil {old : Option Value} (h : ∀ fields, old ≠ some (.mapping fields)) :
    fieldsOf old = [] := by
  unfold fieldsOf
  split
  · exact absurd rfl (h _)
  · rfl

/-- What a section holds under a key after a merge: a null removes the part. -/
def mergedPart (_ : Value) (old : Option Value) (new : Value) : Option Value :=
  match new with
  | .null => none
  | .mapping fields => some (.mapping (mergeFields (fieldsOf old) fields))
  | other => some other

def mergePart (m : Mapping) (e : Value × Value) : Mapping :=
  match mergedPart e.1 (m.get? e.1) e.2 with
  | some v => m.insert e.1 v
  | none => m.remove e.1

theorem mergePart_null (base : Mapping) (k : Value) :
    mergePart base (k, .null) = base.remove k :=
  rfl

theorem mergePart_mapping (base : Mapping) (k : Value) (fields : Mapping) :
    mergePart base (k, .mapping fields) =
      base.insert k (.mapping (mergeFields (fieldsOf (base.get? k)) fields)) :=
  rfl

theorem distinctKeys_fieldsOf {old : Option Value} (hold : ∀ v, old = some v → v.DistinctKeys) :
    (fieldsOf old).DistinctKeys := by
  unfold fieldsOf
  split
  next fields => exact Value.distinctKeys_mapping_iff.mp (hold (.mapping fields) rfl)
  · exact Mapping.distinctKeys_nil

theorem distinctKeys_mergedPart {k new v : Value} {old : Option Value}
    (hold : ∀ v, old = some v → v.DistinctKeys) (hnew : new.DistinctKeys)
    (h : mergedPart k old new = some v) : v.DistinctKeys := by
  unfold mergedPart at h
  split at h
  · cases h
  next fields =>
    cases h
    exact Value.distinctKeys_mapping_iff.mpr (keyLocal_mergeField.foldl_distinctKeys
      (distinctKeys_fieldsOf hold) (Value.distinctKeys_mapping_iff.mp hnew))
  · cases h
    exact hnew

theorem keyLocal_mergePart : KeyLocal mergePart mergedPart where
  distinctKeys {m e} hm he := by
    unfold mergePart
    split
    next v hv =>
      exact hm.insert he.1 (distinctKeys_mergedPart (fun _ => hm.of_get?) he.2 hv)
    · exact hm.remove e.1
  get? {m e k} hm he hk := by
    have hpart : k.same e.1 = true →
        mergedPart k (m.get? k) e.2 = mergedPart e.1 (m.get? e.1) e.2 :=
      fun hke => by rw [Mapping.get?_congr hk hke]; rfl
    unfold mergePart
    by_cases hke : k.same e.1 = true
    · rw [if_pos hke, hpart hke]
      split
      next v hv => rw [Mapping.get?_insert m hk he.1, if_pos hke, hv]
      next hv => rw [Mapping.get?_remove hm hk he.1, if_pos hke, hv]
    · rw [if_neg hke]
      split
      next v hv => rw [Mapping.get?_insert m hk he.1, if_neg hke]
      next hv => rw [Mapping.get?_remove hm hk he.1, if_neg hke]

end BundleCheck.Overlay
