import BundleCheck.Proofs.Overlay.Sections

/-! # Documents under an overlay

Each section of an overlay merges applications into those of the document, and changes the list of
relations in one of two ways: it filters the list, or it writes the list anew. -/

namespace BundleCheck.Overlay

open Yaml

/-! ## What a section says -/

def newApplications (e : Value × Value) : Mapping :=
  match sectionKind? e.1, e.2 with
  | some .applications, .mapping new => new
  | _, _ => []

def newRelations (e : Value × Value) : List Relation :=
  match sectionKind? e.1 with
  | some .relations => ((readRelations e.2 : Except Mismatch (List Relation)).toOption).getD []
  | _ => []

/-- The section writes the list of relations anew. -/
def WritesRelations (e : Value × Value) : Prop :=
  sectionKind? e.1 = some .relations ∧ e.2 ≠ .null

theorem newApplications_eq_nil {e : Value × Value} (h : sectionKind? e.1 ≠ some .applications) :
    newApplications e = [] := by
  unfold newApplications
  split
  next hkind _ => exact absurd hkind h
  · rfl

theorem newApplications_eq_nil_of_null {e : Value × Value} (h : e.2 = .null) :
    newApplications e = [] := by
  unfold newApplications
  split
  next hvalue =>
    rw [h] at hvalue
    cases hvalue
  · rfl

theorem newApplications_of_mapping {e : Value × Value} {new : Mapping}
    (hkind : sectionKind? e.1 = some .applications) (hvalue : e.2 = .mapping new) :
    newApplications e = new := by
  simp only [newApplications, hkind, hvalue]

theorem newRelations_eq_nil {e : Value × Value} (h : sectionKind? e.1 ≠ some .relations) :
    newRelations e = [] := by
  unfold newRelations
  split
  next hkind => exact absurd hkind h
  · rfl

theorem newRelations_eq_nil_of_null {e : Value × Value} (h : e.2 = .null) :
    newRelations e = [] := by
  unfold newRelations
  split
  · rw [h, readRelations_of_isNull rfl]
    rfl
  · rfl

theorem newRelations_of_readRelations {e : Value × Value} {added : List Relation}
    (hkind : sectionKind? e.1 = some .relations)
    (hadded : readRelations e.2 = Except.ok (ε := Mismatch) added) : newRelations e = added := by
  simp only [newRelations, hkind, hadded, Except.toOption, Option.getD_some]

theorem distinctKeys_newApplications {e : Value × Value} (he : e.2.DistinctKeys) :
    (newApplications e).DistinctKeys := by
  unfold newApplications
  split
  next hvalue =>
    rw [hvalue] at he
    exact Value.distinctKeys_mapping_iff.mp he
  · exact Mapping.distinctKeys_nil

/-! ## The applications of a document -/

def applicationsUnder (key : String) (root : Mapping) : Mapping :=
  ((sectionOf root key).entries?).getD []

theorem applicationsUnder_congr {key : String} {root root' : Mapping}
    (h : root'.getName? key = root.getName? key) :
    applicationsUnder key root' = applicationsUnder key root := by
  rw [applicationsUnder, applicationsUnder, sectionOf_congr h]

theorem distinctKeys_applicationsUnder {root : Mapping} (hroot : root.DistinctKeys)
    (key : String) : (applicationsUnder key root).DistinctKeys := by
  unfold applicationsUnder
  cases hentries : (sectionOf root key).entries? with
  | none => exact Mapping.distinctKeys_nil
  | some es => exact distinctKeys_of_entries? (distinctKeys_sectionOf hroot key) hentries

/-- The keys of the applications are touched by their own sections only. -/
theorem touches_eq_false_of_kind_ne {key name : String}
    (hkey : SectionKind.ofName key = .applications)
    (hname : SectionKind.ofName name = .applications) {k : Value}
    (hk : sectionKind? k ≠ some .applications) : touches key k (.string name) = false := by
  rw [Bool.eq_false_iff]
  intro h
  rcases sectionKind?_of_touches hkey h with hkind | ⟨hkind, -⟩
  · exact hk (hkind.trans (congrArg some hname))
  · exact hk hkind

theorem ofName_applicationKey (root : Mapping) :
    SectionKind.ofName (applicationKey root) = .applications := by
  unfold applicationKey
  split
  · rfl
  · split <;> rfl

/-- Merging applications stores them under their key. -/
theorem getName?_mergedApplications (key : String) {name : String}
    (hname : SectionKind.ofName name = .applications) (root : Mapping) (v : Value)
    (removed : List String) :
    Mapping.getName? (removed.foldl removeRelations (root.insert (.string key) v)) name =
      if name = key then some v else root.getName? name := by
  have hne : (Value.string name).same (.string "relations") = false := by
    rw [Bool.eq_false_iff, ne_eq, Value.same_string_iff, Value.string.injEq]
    rintro rfl
    cases hname
  rw [Mapping.getName?, get?_foldl_removeRelations (Value.distinctKeys_string name) hne,
    Mapping.get?_insert root (Value.distinctKeys_string name) (Value.distinctKeys_string key)]
  simp only [Value.same_string_iff, Value.string.injEq, eq_comm (a := key)]
  rfl

/-- Under their key there is what was merged. -/
theorem getName?_mergedApplications_self {key : String}
    (hkey : SectionKind.ofName key = .applications) (root : Mapping) (v : Value)
    (removed : List String) :
    Mapping.getName? (removed.foldl removeRelations (root.insert (.string key) v)) key = some v :=
  (getName?_mergedApplications key hkey root v removed).trans (if_pos rfl)

theorem containsName_mergedApplications {key name : String}
    (hname : SectionKind.ofName name = .applications) (root : Mapping) (v : Value)
    (removed : List String) :
    Mapping.containsName (removed.foldl removeRelations (root.insert (.string key) v)) name =
      (decide (name = key) || root.containsName name) := by
  have hget := getName?_mergedApplications key hname root v removed
  rw [Mapping.getName?] at hget
  rw [Mapping.containsName, Mapping.contains_eq_isSome_get?, hget, Mapping.containsName,
    Mapping.contains_eq_isSome_get?, Mapping.getName?]
  split <;> simp [*]

/-- A section does not move the applications to another key. -/
theorem SectionStep.applicationKey_eq {root root' : Mapping} {e : Value × Value}
    (h : SectionStep (applicationKey root) root e root') (he : e.1.DistinctKeys) :
    applicationKey root' = applicationKey root := by
  have happlications : SectionKind.ofName "applications" = .applications := rfl
  have hservices : SectionKind.ofName "services" = .applications := rfl
  by_cases hkind : sectionKind? e.1 = some .applications
  · rcases h.of_applications hkind with ⟨-, rfl⟩ | ⟨new, existing, -, -, -, rfl⟩
    · rfl
    · conv_lhs => rw [applicationKey]
      rw [containsName_mergedApplications happlications,
        containsName_mergedApplications hservices]
      unfold applicationKey
      cases root.containsName "applications" <;> cases root.containsName "services" <;> decide
  · have hsame : ∀ name, SectionKind.ofName name = .applications →
        root'.containsName name = root.containsName name := by
      intro name hname
      rw [Mapping.containsName, Mapping.containsName, Mapping.contains_eq_isSome_get?,
        Mapping.contains_eq_isSome_get?, h.get?_eq he (Value.distinctKeys_string name)
          (touches_eq_false_of_kind_ne (ofName_applicationKey root) hname hkind)]
    rw [applicationKey, applicationKey, hsame _ happlications, hsame _ hservices]

theorem SectionRun.applicationKey_eq {key : String} {root root' sections : Mapping}
    (h : SectionRun key root sections root') (hkey : applicationKey root = key)
    (hsections : ∀ e ∈ sections, e.1.DistinctKeys ∧ e.2.DistinctKeys) :
    applicationKey root' = key := by
  refine h.keeps (P := fun m => applicationKey m = key) (fun e he m m' hstep hm => ?_) hkey
  subst hm
  exact hstep.applicationKey_eq (hsections e he).1

theorem SectionStep.applicationsUnder_eq {key : String} {root root' : Mapping} {e : Value × Value}
    (h : SectionStep key root e root') (he : e.1.DistinctKeys)
    (hkey : SectionKind.ofName key = .applications) :
    applicationsUnder key root' =
      (newApplications e).foldl mergePart (applicationsUnder key root) := by
  by_cases hkind : sectionKind? e.1 = some .applications
  · rcases h.of_applications hkind with ⟨hnull, rfl⟩ | ⟨new, existing, hvalue, hentries, -, rfl⟩
    · rw [newApplications_eq_nil_of_null hnull]
      rfl
    · have hget := getName?_mergedApplications_self hkey root
        ((sectionOf root key).withEntries (new.foldl mergePart existing))
        (new.filterMap removedName?)
      rw [applicationsUnder, sectionOf_of_getName? hget, entries?_withEntries, applicationsUnder,
        hentries, newApplications_of_mapping hkind hvalue]
      rfl
  · rw [newApplications_eq_nil hkind]
    exact applicationsUnder_congr (h.get?_eq he (Value.distinctKeys_string key)
      (touches_eq_false_of_kind_ne hkey hkey hkind))

/-! ## The relations of a document -/

/-- Each section filters the list of relations or writes it anew. -/
theorem SectionStep.relations_cases {key : String} {root root' : Mapping} {e : Value × Value}
    (h : SectionStep key root e root') (he : e.1.DistinctKeys)
    (hkey : SectionKind.ofName key = .applications) :
    (¬ WritesRelations e ∧ newRelations e = [] ∧ root'.getName? "relations" =
        withoutRelationsOf ((newApplications e).filterMap removedName?)
          (root.getName? "relations")) ∨
      (WritesRelations e ∧ newApplications e = [] ∧ root'.getName? "relations" =
        some (.sequence (((newRelations e).foldl addRelation
          (listed (root.getName? "relations"))).map Relation.encode))) := by
  have hrelations : Value.DistinctKeys (.string "relations") := Value.distinctKeys_string _
  by_cases happlications : sectionKind? e.1 = some .applications
  · left
    have hnot : sectionKind? e.1 ≠ some .relations := by simp [happlications]
    refine ⟨fun hwrites => hnot hwrites.1, newRelations_eq_nil hnot, ?_⟩
    rcases h.of_applications happlications with ⟨hnull, rfl⟩ | ⟨new, existing, hvalue, -, -, rfl⟩
    · rw [newApplications_eq_nil_of_null hnull]
      exact (withoutRelationsOf_nil _).symm
    · have hne : (Value.string "relations").same (.string key) = false := by
        rw [Bool.eq_false_iff, ne_eq, Value.same_string_iff, Value.string.injEq]
        rintro rfl
        cases hkey
      rw [getName?_foldl_removeRelations, newApplications_of_mapping happlications hvalue,
        Mapping.getName?,
        Mapping.get?_insert_of_same_eq_false root hrelations (Value.distinctKeys_string key) hne]
      rfl
  · -- No application is removed, so that the list is left alone unless the section writes it.
    rw [newApplications_eq_nil happlications, List.filterMap_nil, withoutRelationsOf_nil]
    by_cases hlist : sectionKind? e.1 = some .relations
    · rcases h.of_relations hlist with ⟨hnull, rfl⟩ | ⟨hvalue, added, known, hadded, hknown, rfl⟩
      · exact .inl ⟨fun hwrites => hwrites.2 hnull, newRelations_eq_nil_of_null hnull, rfl⟩
      · refine .inr ⟨⟨hlist, hvalue⟩, rfl, ?_⟩
        rw [Mapping.getName?, Mapping.get?_insert_self root hrelations,
          newRelations_of_readRelations hlist hadded, listed_of_readRelations_getD hknown]
    · refine .inl ⟨fun hwrites => hlist hwrites.1, newRelations_eq_nil hlist, ?_⟩
      refine h.get?_eq he hrelations (Bool.eq_false_iff.mpr fun htouches => ?_)
      rcases sectionKind?_of_touches hkey htouches with hkind | ⟨hkind, -⟩
      · exact hlist hkind
      · exact happlications hkind

/-- A section that writes the list is read, and so is the list that was there. -/
theorem SectionStep.readRelations_eq {key : String} {root root' : Mapping} {e : Value × Value}
    (h : SectionStep key root e root') (hwrites : WritesRelations e) :
    readRelations e.2 = Except.ok (ε := Mismatch) (newRelations e) ∧
      readRelations ((root.getName? "relations").getD .null) =
        Except.ok (ε := Mismatch) (listed (root.getName? "relations")) := by
  rcases h.of_relations hwrites.1 with ⟨hnull, -⟩ | ⟨-, added, known, hadded, hknown, -⟩
  · exact absurd hnull hwrites.2
  · rw [newRelations_of_readRelations hwrites.1 hadded, listed_of_readRelations_getD hknown]
    exact ⟨hadded, hknown⟩

/-! ## Documents -/

def rootOf (d : Value) : Mapping :=
  d.entries?.getD []

theorem distinctKeys_rootOf {d : Value} (hd : d.DistinctKeys) : (rootOf d).DistinctKeys := by
  unfold rootOf
  cases hentries : d.entries? with
  | none => exact Mapping.distinctKeys_nil
  | some es => exact distinctKeys_of_entries? hd hentries

theorem rootOf_withEntries (d : Value) (es : Mapping) : rootOf (d.withEntries es) = es := by
  rw [rootOf, entries?_withEntries]
  rfl

def applicationsOf (d : Value) : Mapping :=
  applicationsUnder (applicationKey (rootOf d)) (rootOf d)

def relationsOf (d : Value) : List Relation :=
  listed ((rootOf d).getName? "relations")

def machinesOf (d : Value) : Mapping :=
  ((sectionOf (rootOf d) "machines").entries?).getD []

/-- An overlay that is applied is run on the sections of the base. -/
theorem sectionRun_of_apply {origin : String} {base overlay d : Value} (hbase : base.DistinctKeys)
    (hoverlay : overlay.DistinctKeys) (h : apply origin base overlay = .ok d) :
    SectionRun (applicationKey (rootOf base)) (rootOf base) (rootOf overlay) (rootOf d) := by
  cases overlay with
  | null =>
      cases h
      exact .nil _
  | mapping sections =>
      obtain ⟨root, root', hentries, hrun, rfl⟩ :=
        (apply_mapping_eq_ok_iff hbase (Value.distinctKeys_mapping_iff.mp hoverlay)).mp h
      have hroot : rootOf base = root := by
        rw [rootOf, hentries]
        rfl
      rw [rootOf_withEntries, hroot]
      exact hrun
  | _ => cases h

end BundleCheck.Overlay
