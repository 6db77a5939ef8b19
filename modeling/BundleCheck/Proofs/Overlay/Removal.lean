import BundleCheck.Proofs.Overlay.Documents
import BundleCheck.Proofs.Yaml.Equality

/-! # Removed applications

An application that an overlay sets to null is gone from the document. Its relations are gone
too, but for those that a later section of the overlay lists again, and for those that the
document lists below a tag, where removal does not look. -/

namespace BundleCheck.Overlay

open Yaml

/-! ## Applications that are gone -/

/-- An application that sections set to null, and never to another value, is not there after
them. -/
theorem SectionRun.getName?_applicationsUnder_eq_none {key : String}
    (hkey : SectionKind.ofName key = .applications) {root root' sections : Mapping}
    (h : SectionRun key root sections root') (hroot : root.DistinctKeys)
    (hsections : ∀ e ∈ sections, e.1.DistinctKeys ∧ e.2.DistinctKeys) {a : String}
    (hnull : ∀ e ∈ sections, ∀ v, (newApplications e).getName? a = some v → v = .null)
    (hgone : (applicationsUnder key root).getName? a = none ∨
      ∃ e ∈ sections, (newApplications e).getName? a = some .null) :
    (applicationsUnder key root').getName? a = none := by
  induction h with
  | nil root =>
      rcases hgone with hgone | ⟨e, he, -⟩
      · exact hgone
      · cases he
  | @cons root mid root' e es hstep hrun ih =>
      obtain ⟨he, hes⟩ := List.forall_mem_cons.mp hsections
      obtain ⟨hnulle, hnulles⟩ := List.forall_mem_cons.mp hnull
      have hmid : (applicationsUnder key mid).getName? a =
          mergedUnder mergedPart (.string a) ((applicationsUnder key root).getName? a)
            ((newApplications e).getName? a) := by
        rw [hstep.applicationsUnder_eq he.1 hkey]
        exact keyLocal_mergePart.get?_foldl (distinctKeys_applicationsUnder hroot key)
          (distinctKeys_newApplications he.2) (Value.distinctKeys_string a)
      refine ih (hstep.distinctKeys hroot he) hes hnulles ?_
      cases hget : (newApplications e).getName? a with
      | some v =>
          obtain rfl := hnulle v hget
          left
          rw [hmid, hget]
          rfl
      | none =>
          rw [hget] at hmid
          rcases hgone with hgone | ⟨f, hf, hfnull⟩
          · exact .inl (hmid.trans hgone)
          · rcases List.mem_cons.mp hf with rfl | hf
            · rw [hget] at hfnull
              cases hfnull
            · exact .inr ⟨f, hf, hfnull⟩

/-! ## Relations that a run leaves behind -/

/-- The section removes an application of the relation. -/
def RemovesSide (e : Value × Value) (r : Relation) : Prop :=
  ∃ name ∈ (newApplications e).filterMap removedName?, r.involves name = true

theorem removesSide_of_getName? {e : Value × Value} {a : String}
    (h : (newApplications e).getName? a = some .null) {r : Relation} (hr : r.involves a = true) :
    RemovesSide e r :=
  ⟨a, List.mem_filterMap.mpr ⟨_, Mapping.mem_of_getName?_eq_some h, rfl⟩, hr⟩

theorem removesSide_congr {e : Value × Value} {r s : Relation} (h : r.sameAs s = true) :
    RemovesSide e r ↔ RemovesSide e s := by
  simp only [RemovesSide, Relation.involves_congr h]

/-- A section gives the relation, and no later one removes a side of it. -/
def GivenLast (sections : Mapping) (r : Relation) : Prop :=
  ∃ before e after, sections = before ++ e :: after ∧ r ∈ newRelations e ∧
    ∀ f ∈ after, ¬ RemovesSide f r

/-- A side of the relation is removed only while the list stands below a tag. -/
def Outlives (tagged : Bool) (sections : Mapping) (r : Relation) : Prop :=
  ∀ before e after, sections = before ++ e :: after → RemovesSide e r →
    tagged = true ∧ ∀ f ∈ before, ¬ WritesRelations f

theorem givenLast_cons_iff {e : Value × Value} {es : Mapping} {r : Relation} :
    GivenLast (e :: es) r ↔
      (r ∈ newRelations e ∧ ∀ f ∈ es, ¬ RemovesSide f r) ∨ GivenLast es r := by
  constructor
  · rintro ⟨before, f, after, hsplit, hr, hlast⟩
    cases before with
    | nil =>
        cases hsplit
        exact .inl ⟨hr, hlast⟩
    | cons b before =>
        cases hsplit
        exact .inr ⟨before, f, after, rfl, hr, hlast⟩
  · rintro (⟨hr, hlast⟩ | ⟨before, f, after, rfl, hr, hlast⟩)
    · exact ⟨[], e, es, rfl, hr, hlast⟩
    · exact ⟨e :: before, f, after, rfl, hr, hlast⟩

theorem outlives_false_iff {sections : Mapping} {r : Relation} :
    Outlives false sections r ↔ ∀ f ∈ sections, ¬ RemovesSide f r := by
  constructor
  · intro h f hf hremoves
    obtain ⟨before, after, hsplit⟩ := List.append_of_mem hf
    cases (h before f after hsplit hremoves).1
  · rintro h before e after rfl hremoves
    exact absurd hremoves (h e (by simp))

theorem outlives_cons_of_not_writes {tagged : Bool} {e : Value × Value} {es : Mapping}
    {r : Relation} (he : ¬ WritesRelations e) :
    Outlives tagged (e :: es) r ↔ (RemovesSide e r → tagged = true) ∧ Outlives tagged es r := by
  constructor
  · intro h
    refine ⟨fun hremoves => (h [] e es rfl hremoves).1, ?_⟩
    rintro before f after rfl hremoves
    obtain ⟨htagged, hbefore⟩ := h (e :: before) f after rfl hremoves
    exact ⟨htagged, fun g hg => hbefore g (by simp [hg])⟩
  · rintro ⟨hhead, htail⟩ before f after hsplit hremoves
    cases before with
    | nil =>
        cases hsplit
        exact ⟨hhead hremoves, nofun⟩
    | cons b before =>
        cases hsplit
        obtain ⟨htagged, hbefore⟩ := htail before f after rfl hremoves
        exact ⟨htagged, List.forall_mem_cons.mpr ⟨he, hbefore⟩⟩

theorem outlives_cons_of_writes {tagged : Bool} {e : Value × Value} {es : Mapping} {r : Relation}
    (he : WritesRelations e) (hremoves : ¬ RemovesSide e r) :
    Outlives tagged (e :: es) r ↔ Outlives false es r := by
  rw [outlives_false_iff]
  constructor
  · intro h f hf hfr
    obtain ⟨before, after, rfl⟩ := List.append_of_mem hf
    exact (h (e :: before) f after rfl hfr).2 e (by simp) he
  · rintro h before f after hsplit hfr
    cases before with
    | nil =>
        cases hsplit
        exact absurd hfr hremoves
    | cons b before =>
        cases hsplit
        exact absurd hfr (h f (by simp))

theorem mem_listed_withoutRelationsOf_iff {e : Value × Value} {v? : Option Value} {r : Relation} :
    r ∈ listed (withoutRelationsOf ((newApplications e).filterMap removedName?) v?) ↔
      r ∈ listed v? ∧ (RemovesSide e r → isTaggedList v? = true) := by
  cases htagged : isTaggedList v? with
  | true => simp [withoutRelationsOf_of_isTaggedList _ htagged]
  | false =>
      rw [listed_withoutRelationsOf _ htagged, List.mem_filter, keptWithout, List.all_eq_true]
      simp only [RemovesSide, Bool.not_eq_true', Bool.false_eq_true, imp_false, not_exists, not_and,
        Bool.not_eq_true]

/-- After a run a relation of an application is listed exactly if a section gave one that no later
section removed, or if one that was listed before outlives all sections. -/
theorem SectionRun.exists_involves_iff {key : String}
    (hkey : SectionKind.ofName key = .applications) {root root' sections : Mapping}
    (h : SectionRun key root sections root') (hroot : root.DistinctKeys)
    (hsections : ∀ e ∈ sections, e.1.DistinctKeys ∧ e.2.DistinctKeys) (a : String) :
    (∃ r ∈ listed (root'.getName? "relations"), r.involves a = true) ↔
      (∃ r, r.involves a = true ∧ GivenLast sections r) ∨
        ∃ r ∈ listed (root.getName? "relations"), r.involves a = true ∧
          Outlives (isTaggedList (root.getName? "relations")) sections r := by
  induction h with
  | nil root =>
      constructor
      · rintro ⟨r, hr, hra⟩
        refine .inr ⟨r, hr, hra, fun before e after hsplit => ?_⟩
        simp at hsplit
      · rintro (⟨r, -, before, e, after, hsplit, -⟩ | ⟨r, hr, hra, -⟩)
        · simp at hsplit
        · exact ⟨r, hr, hra⟩
  | @cons root mid root' e es hstep hrun ih =>
      obtain ⟨he, hes⟩ := List.forall_mem_cons.mp hsections
      rw [ih (hstep.distinctKeys hroot he) hes]
      simp only [givenLast_cons_iff]
      rcases hstep.relations_cases he.1 hkey with ⟨hwrites, hnew, hmid⟩ | ⟨hwrites, hnew, hmid⟩
      · simp only [outlives_cons_of_not_writes hwrites, hnew, hmid, isTaggedList_withoutRelationsOf,
          mem_listed_withoutRelationsOf_iff, List.not_mem_nil, false_and, false_or]
        constructor
        · rintro (hgiven | ⟨r, ⟨hr, hremoves⟩, hra, hlives⟩)
          · exact .inl hgiven
          · exact .inr ⟨r, hr, hra, hremoves, hlives⟩
        · rintro (hgiven | ⟨r, hr, hra, hremoves, hlives⟩)
          · exact .inl hgiven
          · exact .inr ⟨r, ⟨hr, hremoves⟩, hra, hlives⟩
      · have hremoves : ∀ r, ¬ RemovesSide e r := by
          rintro r ⟨name, hname, -⟩
          rw [hnew] at hname
          cases hname
        simp only [outlives_cons_of_writes hwrites (hremoves _), hmid, listed_encode,
          isTaggedList, outlives_false_iff]
        constructor
        · rintro (⟨r, hra, hgiven⟩ | ⟨r, hr, hra, hlives⟩)
          · exact .inl ⟨r, hra, .inr hgiven⟩
          · rcases mem_foldl_addRelation hr with hr | hr
            · exact .inr ⟨r, hr, hra, hlives⟩
            · exact .inl ⟨r, hra, .inl ⟨hr, hlives⟩⟩
        · rintro (⟨r, hra, ⟨hr, hlives⟩ | hgiven⟩ | ⟨r, hr, hra, hlives⟩)
          · -- The relation may be there in another form, with the same applications.
            obtain ⟨s, hs, hsame⟩ := exists_sameAs_of_mem
              (listed (root.getName? "relations")) hr
            refine .inr ⟨s, hs, (Relation.involves_congr hsame a).trans hra, fun f hf => ?_⟩
            exact (removesSide_congr hsame).not.mpr (hlives f hf)
          · exact .inl ⟨r, hra, hgiven⟩
          · exact .inr ⟨r, (prefix_foldl_addRelation _ _).subset hr, hra, hlives⟩

/-! ## Documents -/

/-- Each relation of the application that a section gives is met by a later section that removes
a side of it. -/
def MeetsGiven (sections : Mapping) (a : String) : Prop :=
  ∀ before e after, sections = before ++ e :: after → ∀ r ∈ newRelations e,
    r.involves a = true → ∃ f ∈ after, RemovesSide f r

/-- Each relation of the application that a document lists below a tag is met by a section that
removes a side of it, after one that writes the list anew. -/
def MeetsTagged (d : Value) (sections : Mapping) (a : String) : Prop :=
  isTaggedList ((rootOf d).getName? "relations") = true → ∀ r ∈ relationsOf d,
    r.involves a = true → ∃ before e after, sections = before ++ e :: after ∧
      RemovesSide e r ∧ ∃ f ∈ before, WritesRelations f

/-- An overlay that sets an application to null, and gives it no other value, removes it. Its
relations are gone exactly if those that the overlay itself gives are removed after they were
given, and those that the base lists below a tag after the list was written anew. -/
theorem apply_removed_application {origin : String} {base d : Value} {sections : Mapping}
    (hbase : base.DistinctKeys) (hsections : sections.DistinctKeys)
    (h : apply origin base (.mapping sections) = .ok d) {a : String}
    (hremoved : ∃ e ∈ sections, (newApplications e).getName? a = some .null)
    (hnull : ∀ e ∈ sections, ∀ v, (newApplications e).getName? a = some v → v = .null) :
    (applicationsOf d).getName? a = none ∧
      ((∀ r ∈ relationsOf d, r.involves a = false) ↔
        MeetsGiven sections a ∧ MeetsTagged base sections a) := by
  obtain ⟨root, root', hroot, hrun, rfl⟩ := (apply_mapping_eq_ok_iff hbase hsections).mp h
  have hdistinct := distinctKeys_of_entries? hbase hroot
  have hkey := ofName_applicationKey root
  have hrootOf : rootOf base = root := by
    rw [rootOf, hroot]
    rfl
  have hrootOf' : rootOf (base.withEntries root') = root' := by
    rw [rootOf, entries?_withEntries]
    rfl
  have hrelations := hrun.exists_involves_iff hkey hdistinct hsections.parts a
  rw [applicationsOf, relationsOf, MeetsTagged, relationsOf, hrootOf, hrootOf',
    hrun.applicationKey_eq rfl hsections.parts]
  refine ⟨hrun.getName?_applicationsUnder_eq_none hkey hdistinct hsections.parts hnull
    (.inr hremoved), ?_⟩
  constructor
  · intro hnone
    have hleft : ¬ ∃ r ∈ listed (root'.getName? "relations"), r.involves a = true := by
      rintro ⟨r, hr, hra⟩
      rw [hnone r hr] at hra
      cases hra
    rw [hrelations, not_or] at hleft
    constructor
    · intro before e after hsplit r hr hra
      by_contra hlast
      exact hleft.1 ⟨r, hra, before, e, after, hsplit, hr, fun f hf hfr => hlast ⟨f, hf, hfr⟩⟩
    · intro htagged r hr hra
      by_contra hmet
      refine hleft.2 ⟨r, hr, hra, fun before e after hsplit her => ⟨htagged, ?_⟩⟩
      intro f hf hwrites
      exact hmet ⟨before, e, after, hsplit, her, f, hf, hwrites⟩
  · rintro ⟨hgiven, hmet⟩ r hr
    rw [Bool.eq_false_iff]
    intro hra
    rcases hrelations.mp ⟨r, hr, hra⟩ with
      ⟨s, hsa, before, e, after, hsplit, hs, hlast⟩ | ⟨s, hs, hsa, hlives⟩
    · obtain ⟨f, hf, hfs⟩ := hgiven before e after hsplit s hs hsa
      exact hlast f hf hfs
    · -- The section that removes the application removes a side of the relation.
      obtain ⟨e, he, hea⟩ := hremoved
      obtain ⟨before, after, hsplit⟩ := List.append_of_mem he
      have htagged := (hlives before e after hsplit (removesSide_of_getName? hea hsa)).1
      obtain ⟨before, e, after, hsplit, hes, f, hf, hwrites⟩ := hmet htagged s hs hsa
      exact (hlives before e after hsplit hes).2 f hf hwrites

/-! ### An overlay in two orders -/

def pairDocument : Value :=
  .mapping
    [(.string "applications", .mapping
      [(.string "a", .mapping [(.string "charm", .string "x")]),
        (.string "b", .mapping [(.string "charm", .string "y")])]),
      (.string "relations", .sequence [.sequence [.string "b:one", .string " a:one"]])]

def dropSection : Value × Value :=
  (.string "applications", .mapping [(.string "a", .null)])

def relateSection : Value × Value :=
  (.string "relations", .sequence [.sequence [.string "a:two", .string "b:two"]])

/-- A relation that is given first is removed with its application. -/
theorem apply_removed_application_last :
    ∃ d, apply "overlay" pairDocument (.mapping [relateSection, dropSection]) = .ok d ∧
      (applicationsOf d).getName? "a" = none ∧
      ((∀ r ∈ relationsOf d, r.involves "a" = false) ↔
        MeetsGiven [relateSection, dropSection] "a" ∧
          MeetsTagged pairDocument [relateSection, dropSection] "a") := by
  have happly : apply "overlay" pairDocument (.mapping [relateSection, dropSection]) =
      .ok (.mapping
        [(.string "applications", .mapping
          [(.string "b", .mapping [(.string "charm", .string "y")])]),
          (.string "relations", .sequence [])]) := by decide +kernel
  have hbase : pairDocument.DistinctKeys := by decide +kernel
  have hsections : Mapping.DistinctKeys [relateSection, dropSection] := by
    rw [← Value.distinctKeys_mapping_iff]
    decide +kernel
  have hdrop : (newApplications dropSection).getName? "a" = some .null := by decide +kernel
  have hrelate : (newApplications relateSection).getName? "a" = none := by decide +kernel
  refine ⟨_, happly, apply_removed_application hbase hsections happly
    ⟨dropSection, by simp, hdrop⟩ fun e he v hv => ?_⟩
  simp only [List.mem_cons, List.not_mem_nil, or_false] at he
  rcases he with rfl | rfl
  · rw [hrelate] at hv
    cases hv
  · rw [hdrop] at hv
    exact (Option.some.inj hv).symm

/-- A relation that is given last stays, though its application was removed. -/
theorem removed_application_related_again :
    ∃ d, apply "overlay" pairDocument (.mapping [dropSection, relateSection]) = .ok d ∧
      (newApplications dropSection).getName? "a" = some .null ∧
      (newApplications relateSection).getName? "a" = none ∧
      ∃ r ∈ relationsOf d, r.involves "a" = true := by
  refine ⟨.mapping
    [(.string "applications", .mapping
      [(.string "b", .mapping [(.string "charm", .string "y")])]),
      (.string "relations", .sequence [.sequence [.string "a:two", .string "b:two"]])], ?_⟩
  decide +kernel

end BundleCheck.Overlay
