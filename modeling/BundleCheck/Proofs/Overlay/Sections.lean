import BundleCheck.Proofs.Overlay.Applications
import BundleCheck.Proofs.Overlay.Machines
import BundleCheck.Proofs.Overlay.Relations

/-! # Applying the sections of an overlay

An overlay is applied section by section. What one section does is given by rules, and each rule
changes few keys of the document. -/

namespace BundleCheck.Overlay

open Yaml

/-! ## Kinds of sections -/

inductive SectionKind
  | applications
  | machines
  | relations
  | other
  deriving DecidableEq

def SectionKind.ofName (name : String) : SectionKind :=
  if name == "applications" || name == "services" then .applications
  else if name == "machines" then .machines
  else if name == "relations" then .relations
  else .other

/-- How the section under a key is applied; the key must be a text. -/
def sectionKind? (k : Value) : Option SectionKind :=
  k.text?.map SectionKind.ofName

/-! ## Rules -/

/-- What applying one section may do to a document that lists its applications under `key`. -/
inductive SectionStep (key : String) (root : Mapping) : Value × Value → Mapping → Prop
  | null {k : Value} {kind : SectionKind} (hkind : sectionKind? k = some kind)
      (hmeaning : kind ≠ .other) : SectionStep key root (k, .null) root
  | applications {k : Value} {new existing : Mapping}
      (hkind : sectionKind? k = some .applications)
      (hexisting : (sectionOf root key).entries? = some existing)
      (haccepts : ∀ e ∈ new, AcceptsApplication existing e) :
      SectionStep key root (k, .mapping new)
        ((new.filterMap removedName?).foldl removeRelations
          (root.insert (.string key)
            ((sectionOf root key).withEntries (new.foldl mergePart existing))))
  | machines {k : Value} {new existing : Mapping} (hkind : sectionKind? k = some .machines)
      (hexisting : (sectionOf root "machines").entries? = some existing) :
      SectionStep key root (k, .mapping new)
        (root.insert (.string "machines")
          ((sectionOf root "machines").withEntries (new.foldl mergeMachine existing)))
  | relations {k v : Value} {added known : List Relation}
      (hkind : sectionKind? k = some .relations) (hvalue : v ≠ .null)
      (hadded : readRelations v = Except.ok (ε := Mismatch) added)
      (hknown : readRelations ((root.getName? "relations").getD .null) =
        Except.ok (ε := Mismatch) known) :
      SectionStep key root (k, v)
        (root.insert (.string "relations")
          (.sequence ((added.foldl addRelation known).map Relation.encode)))
  | other {k v : Value} (hkind : sectionKind? k = some .other) :
      SectionStep key root (k, v) (root.insert k v)

/-! ## Sections of a document -/

theorem distinctKeys_sectionOf {root : Mapping} (hroot : root.DistinctKeys) (key : String) :
    (sectionOf root key).DistinctKeys := by
  unfold sectionOf
  split
  next v hv =>
    split
    · exact Value.distinctKeys_mapping_iff.mpr Mapping.distinctKeys_nil
    · exact hroot.of_get? hv
  · exact Value.distinctKeys_mapping_iff.mpr Mapping.distinctKeys_nil

theorem sectionOf_congr {root root' : Mapping} {key : String}
    (h : root'.getName? key = root.getName? key) : sectionOf root' key = sectionOf root key := by
  rw [sectionOf, sectionOf, h]

theorem sectionOf_of_getName? {root : Mapping} {key : String} {v : Value} {es : Mapping}
    (h : root.getName? key = some (v.withEntries es)) :
    sectionOf root key = v.withEntries es := by
  rw [sectionOf, h]
  simp [isNull_withEntries]

theorem sectionOf_of_mapping {root : Mapping} {key : String} {es : Mapping}
    (h : root.getName? key = some (.mapping es)) : sectionOf root key = .mapping es :=
  sectionOf_of_getName? (v := .mapping es) h

theorem sectionOf_eq_mapping {root : Mapping} {key : String} {existing : Mapping}
    (hroot : ∀ v, root.getName? key = some v → v.isUntagged = true)
    (h : (sectionOf root key).entries? = some existing) :
    sectionOf root key = .mapping existing := by
  refine Value.eq_mapping_of_entries? ?_ h
  unfold sectionOf
  split
  next v hv =>
    split
    · rfl
    · exact hroot v hv
  · rfl

/-! ## Each kind of section follows its rule -/

theorem mergeApplications_eq_ok_iff {origin key : String} {root : Mapping} {v : Value}
    (hroot : root.DistinctKeys) (hv : v.DistinctKeys) {r : Mapping × List String} :
    mergeApplications origin key root v = .ok r ↔
      (v = .null ∧ r = (root, [])) ∨
        ∃ new existing, v = .mapping new ∧ (sectionOf root key).entries? = some existing ∧
          (∀ e ∈ new, AcceptsApplication existing e) ∧
          r = (root.insert (.string key)
            ((sectionOf root key).withEntries (new.foldl mergePart existing)),
              new.filterMap removedName?) := by
  unfold mergeApplications
  cases v with
  | null =>
      simp only [Except.ok.injEq, true_and, reduceCtorEq, false_and, exists_false, or_false]
      exact eq_comm
  | mapping new =>
      simp only [reduceCtorEq, false_and, false_or, Value.mapping.injEq, exists_and_left,
        exists_eq_left']
      cases hexisting : (sectionOf root key).entries? with
      | none => simp
      | some existing =>
          have hdistinct := distinctKeys_of_entries? (distinctKeys_sectionOf hroot key) hexisting
          have hnew := Value.distinctKeys_mapping_iff.mp hv
          simp only [bind_eq_ok_iff, mergeEach_eq_ok_iff hdistinct hnew, Option.some.injEq,
            exists_eq_left']
          constructor
          · rintro ⟨_, ⟨haccepts, rfl⟩, h⟩
            cases h
            exact ⟨haccepts, rfl⟩
          · rintro ⟨haccepts, rfl⟩
            exact ⟨_, ⟨haccepts, rfl⟩, rfl⟩
  | _ => simp

theorem mergeMachines_eq_ok_iff {origin : String} {root root' : Mapping} {v : Value} :
    mergeMachines origin root v = .ok root' ↔
      (v = .null ∧ root' = root) ∨
        ∃ new existing, v = .mapping new ∧ (sectionOf root "machines").entries? = some existing ∧
          root' = root.insert (.string "machines")
            ((sectionOf root "machines").withEntries (new.foldl mergeMachine existing)) := by
  unfold mergeMachines
  cases v with
  | null =>
      simp only [Except.ok.injEq, true_and, reduceCtorEq, false_and, exists_false, or_false]
      exact eq_comm
  | mapping new =>
      cases hexisting : (sectionOf root "machines").entries? with
      | none => simp [hexisting]
      | some existing =>
          simp only [hexisting, Except.ok.injEq, reduceCtorEq, false_and, false_or,
            Value.mapping.injEq, Option.some.injEq, exists_and_left, exists_eq_left']
          exact eq_comm
  | _ => simp

theorem readRelations_of_isNull {v : Value} (h : v.isNull = true) :
    readRelations v = Except.ok (ε := Mismatch) [] := by
  have hnull : v.untagged = .null := by
    unfold Value.isNull at h
    split at h
    next hv => exact hv
    · cases h
  have hitems : Source.items "a sequence" v = Except.ok (ε := Mismatch) [] :=
    items_eq_ok_iff.mpr (.inr ⟨hnull, rfl⟩)
  rw [readRelations, hitems]
  rfl

theorem baseRelations_eq_ok_iff {origin : String} {root : Mapping} {known : List Relation} :
    baseRelations origin root = .ok known ↔
      readRelations ((root.getName? "relations").getD .null) = Except.ok (ε := Mismatch) known := by
  unfold baseRelations
  cases hget : root.getName? "relations" with
  | none => rw [Option.getD_none, readRelations_of_isNull rfl]; simp
  | some v =>
      rw [Option.getD_some]
      cases hnull : v.isNull with
      | true => rw [readRelations_of_isNull hnull]; simp [hnull]
      | false => simp [hnull, mapError_eq_ok_iff]

theorem appendRelations_eq_ok_iff {origin : String} {root root' : Mapping} {v : Value} :
    appendRelations origin root v = .ok root' ↔
      (v = .null ∧ root' = root) ∨
        v ≠ .null ∧ ∃ added known, readRelations v = Except.ok (ε := Mismatch) added ∧
          readRelations ((root.getName? "relations").getD .null) =
            Except.ok (ε := Mismatch) known ∧
          root' = root.insert (.string "relations")
            (.sequence ((added.foldl addRelation known).map Relation.encode)) := by
  by_cases hnull : v = .null
  · subst hnull
    simp only [appendRelations, Except.ok.injEq, true_and, ne_eq, not_true_eq_false, false_and,
      or_false]
    exact eq_comm
  · simp only [hnull, ne_eq, not_false_eq_true, true_and, false_and, false_or]
    unfold appendRelations
    split
    · exact absurd rfl hnull
    · simp only [bind_eq_ok_iff, mapError_eq_ok_iff, baseRelations_eq_ok_iff]
      constructor
      · rintro ⟨added, hadded, known, hknown, h⟩
        cases h
        exact ⟨added, known, hadded, hknown, rfl⟩
      · rintro ⟨added, known, hadded, hknown, rfl⟩
        exact ⟨added, hadded, known, hknown, rfl⟩

/-- A section is applied by its kind. -/
theorem applySection_eq (origin key : String) (root : Mapping) (e : Value × Value) :
    applySection origin key root e =
      match sectionKind? e.1 with
      | none => .error (.overlayInvalid origin .keyNotText)
      | some .applications => do
          let (root, removed) ← mergeApplications origin key root e.2
          return removed.foldl removeRelations root
      | some .machines => mergeMachines origin root e.2
      | some .relations => appendRelations origin root e.2
      | some .other => .ok (root.insert e.1 e.2) := by
  unfold applySection sectionKind? SectionKind.ofName
  cases e.1.text? with
  | none => rfl
  | some name =>
      simp only [Option.map_some]
      split <;> first | rfl | skip
      split <;> first | rfl | skip
      split <;> rfl

/-- Applying a section follows the rules. -/
theorem applySection_eq_ok_iff {origin key : String} {root root' : Mapping} {e : Value × Value}
    (hroot : root.DistinctKeys) (he : e.2.DistinctKeys) :
    applySection origin key root e = .ok root' ↔ SectionStep key root e root' := by
  obtain ⟨k, v⟩ := e
  rw [applySection_eq]
  constructor
  · intro h
    split at h
    · cases h
    next hkind =>
      obtain ⟨r, hr, h⟩ := bind_eq_ok_iff.mp h
      cases h
      rcases (mergeApplications_eq_ok_iff hroot he).mp hr with
        ⟨rfl, rfl⟩ | ⟨new, existing, rfl, hexisting, haccepts, rfl⟩
      · exact .null hkind (by simp)
      · exact .applications hkind hexisting haccepts
    next hkind =>
      rcases mergeMachines_eq_ok_iff.mp h with ⟨rfl, rfl⟩ | ⟨new, existing, rfl, hexisting, rfl⟩
      · exact .null hkind (by simp)
      · exact .machines hkind hexisting
    next hkind =>
      rcases appendRelations_eq_ok_iff.mp h with
        ⟨rfl, rfl⟩ | ⟨hvalue, added, known, hadded, hknown, rfl⟩
      · exact .null hkind (by simp)
      · exact .relations hkind hvalue hadded hknown
    next hkind =>
      cases h
      exact .other hkind
  · intro h
    cases h with
    | null hkind hmeaning =>
        rename_i kind
        cases kind with
        | applications => rw [hkind]; rfl
        | machines => rw [hkind]; rfl
        | relations => rw [hkind]; rfl
        | other => exact absurd rfl hmeaning
    | applications hkind hexisting haccepts =>
        rw [hkind]
        exact bind_eq_ok_iff.mpr ⟨_, (mergeApplications_eq_ok_iff hroot he).mpr
          (.inr ⟨_, _, rfl, hexisting, haccepts, rfl⟩), rfl⟩
    | machines hkind hexisting =>
        rw [hkind]
        exact mergeMachines_eq_ok_iff.mpr (.inr ⟨_, _, rfl, hexisting, rfl⟩)
    | relations hkind hvalue hadded hknown =>
        rw [hkind]
        exact appendRelations_eq_ok_iff.mpr (.inr ⟨hvalue, _, _, hadded, hknown, rfl⟩)
    | other hkind => rw [hkind]

/-! ## Sections by their kind -/

/-- A section of applications says nothing or is merged into those of the document. -/
theorem SectionStep.of_applications {key : String} {root root' : Mapping} {e : Value × Value}
    (h : SectionStep key root e root') (hkind : sectionKind? e.1 = some .applications) :
    (e.2 = .null ∧ root' = root) ∨
      ∃ new existing, e.2 = .mapping new ∧ (sectionOf root key).entries? = some existing ∧
        (∀ a ∈ new, AcceptsApplication existing a) ∧
        root' = (new.filterMap removedName?).foldl removeRelations
          (root.insert (.string key)
            ((sectionOf root key).withEntries (new.foldl mergePart existing))) := by
  cases h with
  | null => exact .inl ⟨rfl, rfl⟩
  | applications _ hexisting haccepts => exact .inr ⟨_, _, rfl, hexisting, haccepts, rfl⟩
  | machines hkind' | relations hkind' | other hkind' => simp [hkind'] at hkind

/-- A section of machines says nothing or is merged into those of the document. -/
theorem SectionStep.of_machines {key : String} {root root' : Mapping} {e : Value × Value}
    (h : SectionStep key root e root') (hkind : sectionKind? e.1 = some .machines) :
    (e.2 = .null ∧ root' = root) ∨
      ∃ new existing, e.2 = .mapping new ∧ (sectionOf root "machines").entries? = some existing ∧
        root' = root.insert (.string "machines")
          ((sectionOf root "machines").withEntries (new.foldl mergeMachine existing)) := by
  cases h with
  | null => exact .inl ⟨rfl, rfl⟩
  | machines _ hexisting => exact .inr ⟨_, _, rfl, hexisting, rfl⟩
  | applications hkind' | relations hkind' | other hkind' => simp [hkind'] at hkind

/-- A section of relations says nothing or is added to the list, which must be readable then. -/
theorem SectionStep.of_relations {key : String} {root root' : Mapping} {e : Value × Value}
    (h : SectionStep key root e root') (hkind : sectionKind? e.1 = some .relations) :
    (e.2 = .null ∧ root' = root) ∨
      e.2 ≠ .null ∧ ∃ added known, readRelations e.2 = Except.ok (ε := Mismatch) added ∧
        readRelations ((root.getName? "relations").getD .null) =
          Except.ok (ε := Mismatch) known ∧
        root' = root.insert (.string "relations")
          (.sequence ((added.foldl addRelation known).map Relation.encode)) := by
  cases h with
  | null => exact .inl ⟨rfl, rfl⟩
  | relations _ hvalue hadded hknown => exact .inr ⟨hvalue, _, _, hadded, hknown, rfl⟩
  | applications hkind' | machines hkind' | other hkind' => simp [hkind'] at hkind

/-- A section of another kind replaces what is there under its key. -/
theorem SectionStep.of_other {key : String} {root root' : Mapping} {e : Value × Value}
    (h : SectionStep key root e root') (hkind : sectionKind? e.1 = some .other) :
    root' = root.insert e.1 e.2 := by
  cases h with
  | null hkind' hmeaning => exact absurd (Option.some.inj (hkind'.symm.trans hkind)) hmeaning
  | other => rfl
  | applications hkind' | machines hkind' | relations hkind' => simp [hkind'] at hkind

/-! ## What a section changes -/

/-- Applying a section under the key `k` may change what the document holds under `j`. -/
def touches (key : String) (k j : Value) : Bool :=
  match sectionKind? k with
  | some .applications => j.same (.string key) || j.same (.string "relations")
  | some .machines => j.same (.string "machines")
  | some .relations => j.same (.string "relations")
  | some .other => j.same k
  | none => false

/-- A name is touched by sections of its own kind; removed applications touch the relations. -/
theorem sectionKind?_of_touches {key name : String}
    (hkey : SectionKind.ofName key = .applications) {k : Value}
    (h : touches key k (.string name) = true) :
    sectionKind? k = some (SectionKind.ofName name) ∨
      sectionKind? k = some .applications ∧ name = "relations" := by
  unfold touches at h
  split at h
  next hkind =>
    simp only [Bool.or_eq_true, Value.same_string_right_iff, Value.string.injEq] at h
    rcases h with rfl | rfl
    · exact .inl (hkind.trans (congrArg some hkey.symm))
    · exact .inr ⟨hkind, rfl⟩
  next hkind =>
    rw [Value.same_string_right_iff, Value.string.injEq] at h
    subst h
    exact .inl hkind
  next hkind =>
    rw [Value.same_string_right_iff, Value.string.injEq] at h
    subst h
    exact .inl hkind
  next hkind =>
    rw [Value.same_string_iff] at h
    subst h
    exact .inl rfl
  · cases h

theorem distinctKeys_encode (rs : List Relation) :
    (Value.sequence (rs.map Relation.encode)).DistinctKeys := by
  rw [Value.distinctKeys_sequence_iff]
  intro v hv
  obtain ⟨r, -, rfl⟩ := List.mem_map.mp hv
  rfl

theorem SectionStep.distinctKeys {key : String} {root root' : Mapping} {e : Value × Value}
    (h : SectionStep key root e root') (hroot : root.DistinctKeys)
    (he : e.1.DistinctKeys ∧ e.2.DistinctKeys) : root'.DistinctKeys := by
  have hexisting : ∀ {name : String} {existing : Mapping},
      (sectionOf root name).entries? = some existing → existing.DistinctKeys :=
    distinctKeys_of_entries? (distinctKeys_sectionOf hroot _)
  cases h with
  | null => exact hroot
  | applications hkind hentries haccepts =>
      have hnew := Value.distinctKeys_mapping_iff.mp he.2
      exact distinctKeys_foldl_removeRelations (hroot.insert (Value.distinctKeys_string key)
        (distinctKeys_withEntries
          (keyLocal_mergePart.foldl_distinctKeys (hexisting hentries) hnew))) _
  | machines hkind hentries =>
      have hnew := Value.distinctKeys_mapping_iff.mp he.2
      exact hroot.insert (Value.distinctKeys_string _)
        (distinctKeys_withEntries (distinctKeys_mergeMachines (hexisting hentries) hnew))
  | relations => exact hroot.insert (Value.distinctKeys_string _) (distinctKeys_encode _)
  | other => exact hroot.insert he.1 he.2

theorem SectionStep.get?_eq {key : String} {root root' : Mapping} {e : Value × Value}
    (h : SectionStep key root e root') (he : e.1.DistinctKeys) {j : Value} (hj : j.DistinctKeys)
    (htouches : touches key e.1 j = false) : root'.get? j = root.get? j := by
  unfold touches at htouches
  cases h with
  | null => rfl
  | applications hkind hentries haccepts =>
      simp only [hkind, Bool.or_eq_false_iff] at htouches
      rw [get?_foldl_removeRelations hj htouches.2,
        Mapping.get?_insert_of_same_eq_false root hj (Value.distinctKeys_string key) htouches.1]
  | machines hkind hentries =>
      simp only [hkind] at htouches
      exact Mapping.get?_insert_of_same_eq_false root hj (Value.distinctKeys_string _) htouches _
  | relations hkind hvalue hadded hknown =>
      simp only [hkind] at htouches
      exact Mapping.get?_insert_of_same_eq_false root hj (Value.distinctKeys_string _) htouches _
  | other hkind =>
      simp only [hkind] at htouches
      exact Mapping.get?_insert_of_same_eq_false root hj he htouches _

/-! ## All sections -/

/-- What applying sections in order may do to a document. -/
inductive SectionRun (key : String) : Mapping → Mapping → Mapping → Prop
  | nil (root : Mapping) : SectionRun key root [] root
  | cons {root mid root' : Mapping} {e : Value × Value} {es : Mapping}
      (hstep : SectionStep key root e mid) (hrun : SectionRun key mid es root') :
      SectionRun key root (e :: es) root'

/-- What each section of a run keeps is kept by the run. -/
theorem SectionRun.keeps {key : String} {root root' sections : Mapping}
    (h : SectionRun key root sections root') {P : Mapping → Prop}
    (hkeeps : ∀ e ∈ sections, ∀ {m m'}, SectionStep key m e m' → P m → P m') (hroot : P root) :
    P root' := by
  induction h with
  | nil => exact hroot
  | cons hstep hrun ih =>
      obtain ⟨he, hes⟩ := List.forall_mem_cons.mp hkeeps
      exact ih hes (he hstep hroot)

/-- What each section makes of a part of the document, a run makes of it section by section. -/
theorem SectionRun.part_eq_foldl {α : Type} {key : String} {root root' sections : Mapping}
    (h : SectionRun key root sections root') (part : Mapping → α) {next : α → Value × Value → α}
    (hnext : ∀ e ∈ sections, ∀ {m m'}, SectionStep key m e m' → part m' = next (part m) e) :
    part root' = sections.foldl next (part root) := by
  induction h with
  | nil => rfl
  | cons hstep hrun ih =>
      obtain ⟨he, hes⟩ := List.forall_mem_cons.mp hnext
      rw [ih hes, he hstep, List.foldl_cons]

theorem foldlM_applySection_eq_ok_iff {origin key : String} {root root' sections : Mapping}
    (hroot : root.DistinctKeys)
    (hsections : ∀ e ∈ sections, e.1.DistinctKeys ∧ e.2.DistinctKeys) :
    sections.foldlM (applySection origin key) root = .ok root' ↔
      SectionRun key root sections root' := by
  induction sections generalizing root with
  | nil =>
      rw [List.foldlM_nil]
      constructor
      · intro h
        cases h
        exact .nil _
      · intro h
        cases h
        rfl
  | cons e es ih =>
      obtain ⟨he, hes⟩ := List.forall_mem_cons.mp hsections
      rw [List.foldlM_cons, bind_eq_ok_iff]
      constructor
      · rintro ⟨mid, hmid, h⟩
        have hstep := (applySection_eq_ok_iff hroot he.2).mp hmid
        exact .cons hstep ((ih (hstep.distinctKeys hroot he) hes).mp h)
      · intro h
        cases h with
        | cons hstep hrun =>
            exact ⟨_, (applySection_eq_ok_iff hroot he.2).mpr hstep,
              (ih (hstep.distinctKeys hroot he) hes).mpr hrun⟩

/-- Applying an overlay that is a mapping is a run over its sections. -/
theorem apply_mapping_eq_ok_iff {origin : String} {base d : Value} {sections : Mapping}
    (hbase : base.DistinctKeys) (hsections : sections.DistinctKeys) :
    apply origin base (.mapping sections) = .ok d ↔
      ∃ root root', base.entries? = some root ∧
        SectionRun (applicationKey root) root sections root' ∧ d = base.withEntries root' := by
  unfold apply
  cases hroot : base.entries? with
  | none => simp
  | some root =>
      have hdistinct := distinctKeys_of_entries? hbase hroot
      simp only [bind_eq_ok_iff, foldlM_applySection_eq_ok_iff hdistinct hsections.parts,
        Option.some.injEq, exists_and_left, exists_eq_left']
      constructor
      · rintro ⟨root', hrun, h⟩
        cases h
        exact ⟨root', hrun, rfl⟩
      · rintro ⟨root', hrun, rfl⟩
        exact ⟨root', hrun, rfl⟩

theorem SectionRun.distinctKeys {key : String} {root root' sections : Mapping}
    (h : SectionRun key root sections root') (hroot : root.DistinctKeys)
    (hsections : ∀ e ∈ sections, e.1.DistinctKeys ∧ e.2.DistinctKeys) : root'.DistinctKeys :=
  h.keeps (fun e he _ _ hstep hm => hstep.distinctKeys hm (hsections e he)) hroot

/-- A run leaves alone what no section touches. -/
theorem SectionRun.get?_eq {key : String} {root root' sections : Mapping}
    (h : SectionRun key root sections root')
    (hsections : ∀ e ∈ sections, e.1.DistinctKeys ∧ e.2.DistinctKeys) {j : Value}
    (hj : j.DistinctKeys) (htouches : ∀ e ∈ sections, touches key e.1 j = false) :
    root'.get? j = root.get? j := by
  refine h.keeps (P := fun m => m.get? j = root.get? j) (fun e he m m' hstep hm => ?_) rfl
  rw [hstep.get?_eq (hsections e he).1 hj (htouches e he), hm]

/-- Overlays keep the keys of a document distinct. -/
theorem distinctKeys_apply {origin : String} {base overlay d : Value} (hbase : base.DistinctKeys)
    (hoverlay : overlay.DistinctKeys) (h : apply origin base overlay = .ok d) :
    d.DistinctKeys := by
  cases overlay with
  | null =>
      cases h
      exact hbase
  | mapping sections =>
      have hsections := Value.distinctKeys_mapping_iff.mp hoverlay
      obtain ⟨root, root', hroot, hrun, rfl⟩ := (apply_mapping_eq_ok_iff hbase hsections).mp h
      exact distinctKeys_withEntries
        (hrun.distinctKeys (distinctKeys_of_entries? hbase hroot) hsections.parts)
  | _ => cases h

end BundleCheck.Overlay
