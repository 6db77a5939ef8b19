import BundleCheck.Proofs.Include.Options

/-! # Options under an overlay

An overlay makes no option values of its own: what holds of all option values of the base and of
the overlay holds of those of the merged document. -/

namespace BundleCheck.Overlay

open Yaml

/-! ## Entries by their names -/

/-- A property of values, by the names that they stand under, holds of each entry. -/
def Each (Q : Option String → Value → Prop) (m : Mapping) : Prop :=
  ∀ e ∈ m, Q e.1.text? e.2

namespace Each

variable {Q : Option String → Value → Prop} {m new : Mapping} {k v : Value}

theorem nil : Each Q [] :=
  nofun

theorem of_get? (hm : Each Q m) (h : m.get? k = some v) : Q k.text? v := by
  obtain ⟨e, he, hkey, rfl⟩ := Mapping.exists_mem_of_get?_eq_some h
  rw [text?_eq_of_same hkey]
  exact hm e he

theorem insert (hm : Each Q m) (hv : Q k.text? v) : Each Q (m.insert k v) := by
  intro e he
  rcases Mapping.mem_of_mem_insert he with he | ⟨hkey, rfl⟩
  · exact hm e he
  · rw [← text?_eq_of_same hkey]
    exact hv

theorem remove (hm : Each Q m) : Each Q (m.remove k) :=
  fun e he => hm e (Mapping.mem_of_mem_remove he)

/-- What each step keeps is kept by a merge. -/
theorem foldl {step : Mapping → Value × Value → Mapping}
    (hstep : ∀ {m : Mapping} {e : Value × Value}, Each Q m → Q e.1.text? e.2 → Each Q (step m e))
    (hm : Each Q m) (hnew : Each Q new) : Each Q (new.foldl step m) := by
  induction new generalizing m with
  | nil => exact hm
  | cons e es ih =>
      obtain ⟨he, hes⟩ := List.forall_mem_cons.mp hnew
      exact ih (hstep hm he) hes

end Each

/-! ## Options, level by level -/

variable {P : Value → Prop}

def FieldHolds (P : Value → Prop) (name : Option String) (v : Value) : Prop :=
  name = some "options" → Each (fun _ => P) (rootOf v)

def PartHolds (P : Value → Prop) (_ : Option String) (v : Value) : Prop :=
  Each (FieldHolds P) (rootOf v)

def SectionHolds (P : Value → Prop) (name : Option String) (v : Value) : Prop :=
  name.map SectionKind.ofName = some .applications → Each (PartHolds P) (rootOf v)

/-- What holds of all options of a document, in terms of its levels. -/
theorem forall_optionsOf_iff {d : Value} :
    (∀ o ∈ Include.optionsOf d, P o.value) ↔ Each (SectionHolds P) (rootOf d) := by
  have hfield : ∀ k a f, (∀ o ∈ Include.optionsOfField k a f, P o.value) ↔
      FieldHolds P f.1.text? f.2 := by
    intro k a f
    unfold Include.optionsOfField FieldHolds Each
    by_cases h : f.1.text? = some "options"
    · simp only [h, if_true, List.forall_mem_map, forall_true_left]
    · simp [h]
  have hsection : ∀ e, (∀ o ∈ Include.optionsOfSection e, P o.value) ↔
      SectionHolds P e.1.text? e.2 := by
    intro e
    unfold Include.optionsOfSection SectionHolds
    by_cases h : sectionKind? e.1 = some .applications
    · have h' : e.1.text?.map SectionKind.ofName = some .applications := h
      simp only [h, h', if_true, forall_true_left, List.forall_mem_flatMap,
        Include.optionsOfApplication, hfield]
      rfl
    · have h' : e.1.text?.map SectionKind.ofName ≠ some .applications := h
      simp [h, h']
  simp only [Include.optionsOf, List.forall_mem_flatMap, hsection]
  rfl

/-! ## Merging -/

theorem each_mergeKey {m : Mapping} {e : Value × Value} (hm : Each (fun _ => P) m) (he : P e.2) :
    Each (fun _ => P) (mergeKey m e) := by
  unfold mergeKey
  split
  · exact hm.remove
  · exact hm.insert he

theorem fieldHolds_mergedField {k v : Value} {old : Option Value}
    (hold : ∀ w, old = some w → FieldHolds P k.text? w) (hv : FieldHolds P k.text? v) :
    FieldHolds P k.text? (mergedField k old v) := by
  unfold mergedField
  split
  next existing incoming _ =>
    intro hname
    have hexisting := hold (.mapping existing) rfl hname
    exact hexisting.foldl each_mergeKey (hv hname)
  · exact hv

theorem each_mergeField {m : Mapping} {e : Value × Value} (hm : Each (FieldHolds P) m)
    (he : FieldHolds P e.1.text? e.2) : Each (FieldHolds P) (mergeField m e) := by
  rw [mergeField_eq]
  exact hm.insert (fieldHolds_mergedField (fun _ => hm.of_get?) he)

theorem each_fieldsOf {name : Option String} {old : Option Value}
    (hold : ∀ w, old = some w → PartHolds P name w) : Each (FieldHolds P) (fieldsOf old) := by
  unfold fieldsOf
  split
  next fields => exact hold (.mapping fields) rfl
  · exact .nil

theorem each_mergePart {m : Mapping} {e : Value × Value} (hm : Each (PartHolds P) m)
    (he : PartHolds P e.1.text? e.2) : Each (PartHolds P) (mergePart m e) := by
  obtain ⟨k, v⟩ := e
  cases v with
  | null =>
      rw [mergePart_null]
      exact hm.remove
  | mapping fields =>
      rw [mergePart_mapping]
      apply hm.insert
      exact (each_fieldsOf fun _ => hm.of_get?).foldl each_mergeField he
  | _ => exact hm.insert he

/-! ## Sections -/

theorem each_applicationsUnder {key : String} {root existing : Mapping}
    (hkey : SectionKind.ofName key = .applications) (hroot : Each (SectionHolds P) root)
    (h : (sectionOf root key).entries? = some existing) : Each (PartHolds P) existing := by
  unfold sectionOf at h
  split at h
  next v hv =>
    split at h
    · cases h
      exact .nil
    · have hsection := hroot.of_get? hv (congrArg some hkey)
      rw [rootOf, h] at hsection
      exact hsection
  · cases h
    exact .nil

/-- Sections of another kind hold no options. -/
theorem sectionHolds_of_kind_ne {k v : Value} (h : sectionKind? k ≠ some .applications) :
    SectionHolds P k.text? v :=
  fun hkind => absurd hkind h

theorem each_removeRelations {root : Mapping} (hroot : Each (SectionHolds P) root)
    (names : List String) : Each (SectionHolds P) (names.foldl removeRelations root) := by
  induction names generalizing root with
  | nil => exact hroot
  | cons name names ih =>
      apply ih
      rcases removeRelations_eq root name with heq | ⟨items, -, heq⟩
      · rwa [heq]
      · rw [heq]
        exact hroot.insert (sectionHolds_of_kind_ne (by decide))

theorem SectionStep.each {key : String} (hkey : SectionKind.ofName key = .applications)
    {root root' : Mapping} {e : Value × Value} (h : SectionStep key root e root')
    (hroot : Each (SectionHolds P) root) (he : SectionHolds P e.1.text? e.2) :
    Each (SectionHolds P) root' := by
  cases h with
  | null => exact hroot
  | @applications k new existing hkind hexisting haccepts =>
      apply each_removeRelations
      apply hroot.insert
      intro _
      rw [rootOf_withEntries]
      exact (each_applicationsUnder hkey hroot hexisting).foldl each_mergePart (he hkind)
  | machines => exact hroot.insert (sectionHolds_of_kind_ne (by decide))
  | relations => exact hroot.insert (sectionHolds_of_kind_ne (by decide))
  | other => exact hroot.insert he

theorem SectionRun.each {key : String} (hkey : SectionKind.ofName key = .applications)
    {root root' sections : Mapping} (h : SectionRun key root sections root')
    (hroot : Each (SectionHolds P) root) (hsections : Each (SectionHolds P) sections) :
    Each (SectionHolds P) root' :=
  h.keeps (fun e he _ _ hstep hm => hstep.each hkey hm (hsections e he)) hroot

/-- What holds of the options of the base and of the overlay holds of those of the merged
document. -/
theorem forall_optionsOf_apply {origin : String} {base overlay d : Value}
    (hbase : base.DistinctKeys) (hoverlay : overlay.DistinctKeys)
    (hP : ∀ o ∈ Include.optionsOf base, P o.value)
    (hP' : ∀ o ∈ Include.optionsOf overlay, P o.value) (h : apply origin base overlay = .ok d) :
    ∀ o ∈ Include.optionsOf d, P o.value := by
  rw [forall_optionsOf_iff] at hP hP' ⊢
  exact (sectionRun_of_apply hbase hoverlay h).each (ofName_applicationKey (rootOf base)) hP hP'

end BundleCheck.Overlay
