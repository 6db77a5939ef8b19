import BundleCheck.Proofs.Overlay.Contents

/-! # What a section needs

A section is accepted by any document that has what it needs: sections of applications and of
machines that are mappings, relations that can be read, and the applications that it changes. All
of this but the last is there after a section exactly if it was there before. -/

namespace BundleCheck.Overlay

open Yaml

variable {key : String} {root root' sections : Mapping} {e : Value × Value}

/-! ## Sections that are mappings -/

/-- The document lists parts under a name, or can do so. -/
def HasEntries (root : Mapping) (name : String) : Prop :=
  ∃ es, (sectionOf root name).entries? = some es

theorem hasEntries_congr {name : String} (h : root'.getName? name = root.getName? name) :
    HasEntries root' name ↔ HasEntries root name := by
  rw [HasEntries, HasEntries, sectionOf_congr h]

theorem hasEntries_of_getName? {name : String} {v : Value} {es : Mapping}
    (h : root.getName? name = some (v.withEntries es)) : HasEntries root name :=
  ⟨es, by rw [sectionOf_of_getName? h, entries?_withEntries]⟩

/-- The sections that list parts: applications under their key, and machines. -/
inductive ListsParts (key : String) : String → SectionKind → Prop
  | applications : ListsParts key key .applications
  | machines : ListsParts key "machines" .machines

def GivesParts (kind : SectionKind) (e : Value × Value) : Prop :=
  sectionKind? e.1 = some kind ∧ ∃ new, e.2 = .mapping new

theorem touches_parts_eq_false (hkey : SectionKind.ofName key = .applications) {name : String}
    {kind : SectionKind} (hname : ListsParts key name kind) {k : Value}
    (hk : sectionKind? k ≠ some kind) : touches key k (.string name) = false := by
  cases hname with
  | applications => exact touches_eq_false_of_kind_ne hkey hkey hk
  | machines => exact touches_machines_eq_false hkey hk

/-- A section writes the parts that it gives, and leaves those of other kinds alone. -/
theorem SectionStep.getName?_parts (hkey : SectionKind.ofName key = .applications)
    (h : SectionStep key root e root') (he : e.1.DistinctKeys) {name : String}
    {kind : SectionKind} (hname : ListsParts key name kind) :
    (GivesParts kind e ∧ HasEntries root name ∧ root'.getName? name =
        some ((sectionOf root name).withEntries (applicationsUnder name root'))) ∨
      ¬ GivesParts kind e ∧ root'.getName? name = root.getName? name := by
  -- What is stored under a name is what is listed there.
  have hlisted : ∀ {root' : Mapping} {es : Mapping},
      root'.getName? name = some ((sectionOf root name).withEntries es) → root'.getName? name =
        some ((sectionOf root name).withEntries (applicationsUnder name root')) := by
    intro root' es hget
    rw [applicationsUnder, sectionOf_of_getName? hget, entries?_withEntries]
    exact hget
  -- A section that says nothing gives no parts.
  have hnone : e.2 = .null → ¬ GivesParts kind e := by
    rintro hnull ⟨-, new, hvalue⟩
    rw [hnull] at hvalue
    cases hvalue
  by_cases hkind : sectionKind? e.1 = some kind
  · cases hname with
    | applications =>
        rcases h.of_applications hkind with
          ⟨hnull, rfl⟩ | ⟨new, existing, hvalue, hexisting, -, rfl⟩
        · exact .inr ⟨hnone hnull, rfl⟩
        · exact .inl ⟨⟨hkind, new, hvalue⟩, ⟨existing, hexisting⟩,
            hlisted (getName?_mergedApplications_self hkey root _ _)⟩
    | machines =>
        rcases h.of_machines hkind with ⟨hnull, rfl⟩ | ⟨new, existing, hvalue, hexisting, rfl⟩
        · exact .inr ⟨hnone hnull, rfl⟩
        · exact .inl ⟨⟨hkind, new, hvalue⟩, ⟨existing, hexisting⟩,
            hlisted (root.get?_insert_self (Value.distinctKeys_string _) _)⟩
  · exact .inr ⟨fun hgives => hkind hgives.1, h.get?_eq he (Value.distinctKeys_string name)
      (touches_parts_eq_false hkey hname hkind)⟩

theorem SectionStep.hasEntries_iff (hkey : SectionKind.ofName key = .applications)
    (h : SectionStep key root e root') (he : e.1.DistinctKeys) {name : String}
    {kind : SectionKind} (hname : ListsParts key name kind) :
    HasEntries root' name ↔ HasEntries root name := by
  rcases h.getName?_parts hkey he hname with ⟨-, hentries, hget⟩ | ⟨-, hget⟩
  · exact iff_of_true (hasEntries_of_getName? hget) hentries
  · exact hasEntries_congr hget

/-! ## Lists that can be read -/

def Readable (v? : Option Value) : Prop :=
  ∃ rs, readRelations (v?.getD .null) = Except.ok (ε := Mismatch) rs

theorem isSome_relation?_iff {item : Value} :
    (relation? item).isSome = true ↔
      ∃ r, (Relation.read item : Except Mismatch Relation) = .ok r := by
  simp only [relation?, Option.isSome_iff_exists, toOption_eq_some_iff]

theorem readable_sequence_iff {items : List Value} :
    Readable (some (.sequence items)) ↔ ∀ item ∈ items, (relation? item).isSome = true := by
  simp only [isSome_relation?_iff]
  exact exists_mapM_eq_ok_iff

theorem relation?_of_isRelationOf {name : String} {item : Value}
    (h : isRelationOf name item = true) : (relation? item).isSome = true := by
  rw [isRelationOf_eq, Option.any_eq_true] at h
  obtain ⟨r, hr, -⟩ := h
  rw [hr]
  rfl

/-- What is removed from a list are relations, so that it can be read as before. -/
theorem readable_withoutRelationsOf_iff (names : List String) {v? : Option Value} :
    Readable (withoutRelationsOf names v?) ↔ Readable v? := by
  cases v? with
  | none => rfl
  | some v =>
      cases v with
      | sequence items =>
          refine readable_sequence_iff.trans (Iff.trans ?_ readable_sequence_iff.symm)
          constructor
          · intro h item hitem
            by_cases hkept : keptItem names item = true
            · exact h item (List.mem_filter.mpr ⟨hitem, hkept⟩)
            · obtain ⟨name, -, hname⟩ : ∃ name ∈ names, isRelationOf name item = true := by
                simpa [keptItem] using hkept
              exact relation?_of_isRelationOf hname
          · exact fun h item hitem => h item (List.mem_of_mem_filter hitem)
      | _ => rfl

theorem SectionStep.readable_iff (hkey : SectionKind.ofName key = .applications)
    (h : SectionStep key root e root') (he : e.1.DistinctKeys) :
    Readable (root'.getName? "relations") ↔ Readable (root.getName? "relations") := by
  rcases h.relations_cases he hkey with ⟨-, -, hget⟩ | ⟨hwrites, -, hget⟩
  · rw [hget]
    exact readable_withoutRelationsOf_iff _
  · refine iff_of_true ?_ ⟨_, (h.readRelations_eq hwrites).2⟩
    rw [hget]
    exact ⟨_, readRelations_encode _⟩

/-! ## Documents with the same means -/

/-- The documents have the same sections that can be merged into. -/
structure SameMeans (key : String) (root root' : Mapping) : Prop where
  applications : HasEntries root key ↔ HasEntries root' key
  machines : HasEntries root "machines" ↔ HasEntries root' "machines"
  relations : Readable (root.getName? "relations") ↔ Readable (root'.getName? "relations")

theorem SameMeans.refl (key : String) (root : Mapping) : SameMeans key root root :=
  ⟨Iff.rfl, Iff.rfl, Iff.rfl⟩

theorem SameMeans.symm (h : SameMeans key root root') : SameMeans key root' root :=
  ⟨h.applications.symm, h.machines.symm, h.relations.symm⟩

theorem SameMeans.trans {root'' : Mapping} (h : SameMeans key root root')
    (h' : SameMeans key root' root'') : SameMeans key root root'' :=
  ⟨h.applications.trans h'.applications, h.machines.trans h'.machines,
    h.relations.trans h'.relations⟩

theorem SectionStep.sameMeans (hkey : SectionKind.ofName key = .applications)
    (h : SectionStep key root e root') (he : e.1.DistinctKeys) : SameMeans key root root' where
  applications := (h.hasEntries_iff hkey he .applications).symm
  machines := (h.hasEntries_iff hkey he .machines).symm
  relations := (h.readable_iff hkey he).symm

theorem SectionRun.sameMeans (hkey : SectionKind.ofName key = .applications)
    (h : SectionRun key root sections root')
    (hsections : ∀ e ∈ sections, e.1.DistinctKeys ∧ e.2.DistinctKeys) :
    SameMeans key root root' :=
  h.keeps (fun e he _ _ hstep hm => hm.trans (hstep.sameMeans hkey (hsections e he).1))
    (.refl key root)

/-- A section that one document accepts is accepted by another one with the same means, if the
applications that it changes are the same. -/
theorem SectionStep.exists_of_sameMeans {other : Mapping} (h : SectionStep key root e root')
    (hmeans : SameMeans key root other)
    (hget : ∀ a ∈ newApplications e,
      (applicationsUnder key root).get? a.1 = (applicationsUnder key other).get? a.1) :
    ∃ other', SectionStep key other e other' := by
  cases h with
  | null hkind hmeaning => exact ⟨other, .null hkind hmeaning⟩
  | @applications k new existing hkind hexisting haccepts =>
      obtain ⟨es, hes⟩ := hmeans.applications.mp ⟨existing, hexisting⟩
      have hroot : applicationsUnder key root = existing := by
        rw [applicationsUnder, hexisting, Option.getD_some]
      have hother : applicationsUnder key other = es := by
        rw [applicationsUnder, hes, Option.getD_some]
      rw [newApplications_of_mapping hkind rfl, hroot, hother] at hget
      exact ⟨_, .applications hkind hes fun a ha =>
        (acceptsApplication_congr (hget a ha)).mp (haccepts a ha)⟩
  | machines hkind hexisting =>
      obtain ⟨es, hes⟩ := hmeans.machines.mp ⟨_, hexisting⟩
      exact ⟨_, .machines hkind hes⟩
  | relations hkind hvalue hadded hknown =>
      obtain ⟨known, hknown'⟩ := hmeans.relations.mp ⟨_, hknown⟩
      exact ⟨_, .relations hkind hvalue hadded hknown'⟩
  | other hkind => exact ⟨_, .other hkind⟩

/-- A run that starts at one document starts at another one with the same means, too. -/
theorem SectionRun.exists_of_sameMeans (hkey : SectionKind.ofName key = .applications)
    {other : Mapping} (h : SectionRun key root sections root')
    (hsections : ∀ e ∈ sections, e.1.DistinctKeys ∧ e.2.DistinctKeys) (hroot : root.DistinctKeys)
    (hother : other.DistinctKeys) (hmeans : SameMeans key root other)
    (hget : ∀ a ∈ sections.flatMap newApplications,
      (applicationsUnder key root).get? a.1 = (applicationsUnder key other).get? a.1) :
    ∃ other', SectionRun key other sections other' := by
  induction h generalizing other with
  | nil => exact ⟨other, .nil other⟩
  | @cons root mid root' e es hstep hrun ih =>
      obtain ⟨he, hes⟩ := List.forall_mem_cons.mp hsections
      rw [List.flatMap_cons, List.forall_mem_append] at hget
      obtain ⟨hgete, hgetes⟩ := hget
      obtain ⟨next, hnext⟩ := hstep.exists_of_sameMeans hmeans hgete
      have hmeans' : SameMeans key mid next :=
        (hstep.sameMeans hkey he.1).symm.trans (hmeans.trans (hnext.sameMeans hkey he.1))
      obtain ⟨other', hother'⟩ := ih hes (hstep.distinctKeys hroot he)
        (hnext.distinctKeys hother he) hmeans' fun a ha => by
          rw [hstep.applicationsUnder_eq he.1 hkey, hnext.applicationsUnder_eq he.1 hkey]
          exact get?_foldl_mergePart_congr (distinctKeys_applicationsUnder hroot key)
            (distinctKeys_applicationsUnder hother key)
            (distinctKeys_newApplications he.2).parts
            (distinctKeys_mem_newApplications hes a ha).1 (hgetes a ha)
      exact ⟨other', .cons hnext hother'⟩

end BundleCheck.Overlay
