import BundleCheck.Proofs.Overlay.Documents

/-! # Places of sections

Each section of an overlay is merged into a place of its own, but for the relations of removed
applications. What a run leaves in a place is what the section of this place has written there. -/

namespace BundleCheck.Overlay

open Yaml

/-! ## The place of a section -/

/-- The key under which a section is merged into a document. -/
def ownKey (key : String) (k : Value) : Value :=
  match sectionKind? k with
  | some .applications => .string key
  | some .machines => .string "machines"
  | some .relations => .string "relations"
  | _ => k

theorem sectionKind?_string (name : String) :
    sectionKind? (.string name) = some (SectionKind.ofName name) :=
  rfl

/-- The place of a section is of its kind. -/
theorem sectionKind?_ownKey {key : String} (hkey : SectionKind.ofName key = .applications)
    (k : Value) : sectionKind? (ownKey key k) = sectionKind? k := by
  unfold ownKey
  split
  next hkind => rw [hkind, sectionKind?_string, hkey]
  next hkind => rw [hkind]; rfl
  next hkind => rw [hkind]; rfl
  · rfl

/-- The sections have names, and no two of them are merged into one place. -/
structure Apart (key : String) (sections : Mapping) : Prop where
  named : ∀ e ∈ sections, ∃ name, e.1 = .string name
  apart : sections.Pairwise fun e f => ownKey key e.1 ≠ ownKey key f.1

theorem exists_ownKey_eq_string {key : String} {k : Value} (h : ∃ name, k = .string name) :
    ∃ name, ownKey key k = .string name := by
  obtain ⟨name, rfl⟩ := h
  unfold ownKey
  split <;> exact ⟨_, rfl⟩

/-- Sections are merged into their own places; the relations of removed applications aside. -/
theorem touches_eq_false {key : String} {k j : Value} (hk : ∃ name, k = .string name)
    (hown : j ≠ ownKey key k) (hrelations : j ≠ .string "relations") :
    touches key k j = false := by
  obtain ⟨name, rfl⟩ := hk
  rw [Bool.eq_false_iff]
  intro h
  unfold touches at h
  unfold ownKey at hown
  split at h
  next hkind =>
    rw [hkind] at hown
    simp only [Bool.or_eq_true, Value.same_string_right_iff] at h
    exact h.elim hown hrelations
  next hkind =>
    rw [hkind] at hown
    exact hown (Value.same_string_right_iff.mp h)
  next hkind => exact hrelations (Value.same_string_right_iff.mp h)
  next hkind =>
    rw [hkind] at hown
    exact hown (Value.same_string_right_iff.mp h)
  · cases h

theorem Apart.split {key : String} {before after : Mapping} {e : Value × Value}
    (h : Apart key (before ++ e :: after)) :
    (∀ f ∈ before, ownKey key e.1 ≠ ownKey key f.1) ∧
      ∀ f ∈ after, ownKey key e.1 ≠ ownKey key f.1 := by
  obtain ⟨-, hafter, hbefore⟩ := List.pairwise_append.mp h.apart
  exact ⟨fun f hf => (hbefore f hf e (by simp)).symm, (List.pairwise_cons.mp hafter).1⟩

/-! ## Overlays without tags -/

theorem SectionKind.ofName_cases (name : String) :
    (ofName name = .applications ∧ (name = "applications" ∨ name = "services")) ∨
      (ofName name = .machines ∧ name = "machines") ∨
      (ofName name = .relations ∧ name = "relations") ∨ ofName name = .other := by
  unfold ofName
  by_cases happlications : name = "applications" ∨ name = "services"
  · left
    rcases happlications with rfl | rfl <;> simp
  · by_cases hmachines : name = "machines"
    · simp [hmachines]
    · by_cases hrelations : name = "relations"
      · simp [hrelations]
      · simp_all

/-- Sections of one place have one name, or are the applications under both of their names. -/
theorem eq_or_names_of_ownKey_eq {key name name' : String}
    (hkey : SectionKind.ofName key = .applications)
    (h : ownKey key (.string name) = ownKey key (.string name')) : name = name' ∨
      (name = "applications" ∧ name' = "services") ∨
        (name = "services" ∧ name' = "applications") := by
  have hkind := congrArg sectionKind? h
  rw [sectionKind?_ownKey hkey, sectionKind?_ownKey hkey, sectionKind?_string,
    sectionKind?_string, Option.some.injEq] at hkind
  have hname' := SectionKind.ofName_cases name'
  rw [← hkind] at hname'
  rcases SectionKind.ofName_cases name with ⟨hk, hname⟩ | ⟨hk, hname⟩ | ⟨hk, hname⟩ | hk
  · simp only [hk, true_and, reduceCtorEq, false_and, or_false] at hname'
    rcases hname with rfl | rfl <;> rcases hname' with rfl | rfl <;> simp
  · simp only [hk, true_and, reduceCtorEq, false_and, or_false, false_or] at hname'
    exact .inl (hname.trans hname'.symm)
  · simp only [hk, true_and, reduceCtorEq, false_and, or_false, false_or] at hname'
    exact .inl (hname.trans hname'.symm)
  · left
    rw [ownKey, sectionKind?_string, hk, ownKey, sectionKind?_string, ← hkind, hk] at h
    exact Value.string.inj h

theorem SectionRun.exists_sectionKind? {key : String} {root root' sections : Mapping}
    (h : SectionRun key root sections root') :
    ∀ e ∈ sections, ∃ kind, sectionKind? e.1 = some kind := by
  induction h with
  | nil => exact nofun
  | cons hstep hrun ih =>
      refine List.forall_mem_cons.mpr ⟨?_, ih⟩
      cases hstep with
      | null hkind | applications hkind | machines hkind | relations hkind | other hkind =>
          exact ⟨_, hkind⟩

theorem containsName_of_mem {m : Mapping} {e : Value × Value} (he : e ∈ m) {name : String}
    (hname : e.1 = .string name) : m.containsName name = true :=
  List.any_eq_true.mpr ⟨e, he, by rw [hname]; exact Value.same_refl _⟩

/-- Sections without tags, of which not both list applications, are merged into places of their
own. -/
theorem apart_of_isUntagged {key : String} (hkey : SectionKind.ofName key = .applications)
    {sections : Mapping} (hdistinct : sections.DistinctKeys)
    (huntagged : (Value.mapping sections).isUntagged = true)
    (hkinds : ∀ e ∈ sections, ∃ kind, sectionKind? e.1 = some kind)
    (hboth : ¬ (sections.containsName "applications" = true ∧
      sections.containsName "services" = true)) : Apart key sections := by
  have hnamed : ∀ e ∈ sections, ∃ name, e.1 = .string name := by
    intro e he
    obtain ⟨kind, hkind⟩ := hkinds e he
    obtain ⟨name, hname, -⟩ := Option.map_eq_some_iff.mp hkind
    exact ⟨name, Value.eq_string_of_text? (Value.isUntagged_mapping_iff.mp huntagged e he).1 hname⟩
  refine ⟨hnamed, hdistinct.keys.imp_of_mem fun {e f} he hf hne hown => ?_⟩
  obtain ⟨name, hname⟩ := hnamed e he
  obtain ⟨name', hname'⟩ := hnamed f hf
  rw [hname, hname'] at hown hne
  rcases eq_or_names_of_ownKey_eq hkey hown with rfl | ⟨rfl, rfl⟩ | ⟨rfl, rfl⟩
  · rw [Value.same_refl] at hne
    cases hne
  · exact hboth ⟨containsName_of_mem he hname, containsName_of_mem hf hname'⟩
  · exact hboth ⟨containsName_of_mem hf hname', containsName_of_mem he hname⟩

/-! ## Runs -/

theorem sectionRun_append_iff {key : String} {root root' before after : Mapping} :
    SectionRun key root (before ++ after) root' ↔
      ∃ mid, SectionRun key root before mid ∧ SectionRun key mid after root' := by
  induction before generalizing root with
  | nil =>
      constructor
      · exact fun h => ⟨root, .nil root, h⟩
      · rintro ⟨mid, hbefore, hafter⟩
        cases hbefore
        exact hafter
  | cons e es ih =>
      constructor
      · intro h
        cases h with
        | cons hstep hrun =>
            obtain ⟨mid, hbefore, hafter⟩ := ih.mp hrun
            exact ⟨mid, .cons hstep hbefore, hafter⟩
      · rintro ⟨mid, hbefore, hafter⟩
        cases hbefore with
        | cons hstep hrun => exact .cons hstep (ih.mpr ⟨mid, hrun, hafter⟩)

/-- A run goes through if each section can be applied to what those before it leave. -/
theorem exists_sectionRun {key : String} {root sections : Mapping}
    (h : ∀ before e after mid, sections = before ++ e :: after → SectionRun key root before mid →
      ∃ mid', SectionStep key mid e mid') : ∃ root', SectionRun key root sections root' := by
  induction sections generalizing root with
  | nil => exact ⟨root, .nil root⟩
  | cons e es ih =>
      obtain ⟨mid, hstep⟩ := h [] e es root rfl (.nil root)
      obtain ⟨root', hrun⟩ := ih fun before f after mid' hsplit hrun =>
        h (e :: before) f after mid' (by rw [hsplit, List.cons_append]) (.cons hstep hrun)
      exact ⟨root', .cons hstep hrun⟩

/-- What a section makes of a document is determined. -/
theorem SectionStep.eq {key : String} {root r r' : Mapping} {e : Value × Value}
    (h : SectionStep key root e r) (h' : SectionStep key root e r') (hroot : root.DistinctKeys)
    (he : e.2.DistinctKeys) : r = r' := by
  have hr : applySection "" key root e = .ok r := (applySection_eq_ok_iff hroot he).mpr h
  have hr' : applySection "" key root e = .ok r' := (applySection_eq_ok_iff hroot he).mpr h'
  exact Except.ok.inj (hr.symm.trans hr')

/-- A place that no section of a run has for its own stays as it is. -/
theorem SectionRun.get?_eq_of_ne_ownKey {key : String} {root root' sections : Mapping}
    (h : SectionRun key root sections root')
    (hsections : ∀ e ∈ sections, e.1.DistinctKeys ∧ e.2.DistinctKeys)
    (hnamed : ∀ e ∈ sections, ∃ name, e.1 = .string name) {j : Value} (hj : j.DistinctKeys)
    (hrelations : j ≠ .string "relations") (hown : ∀ e ∈ sections, j ≠ ownKey key e.1) :
    root'.get? j = root.get? j :=
  h.get?_eq hsections hj fun e he => touches_eq_false (hnamed e he) (hown e he) hrelations

/-! ## The list of relations -/

def removedNames (sections : Mapping) : List String :=
  sections.flatMap fun e => (newApplications e).filterMap removedName?

theorem SectionRun.relations_eq_of_not_writes {key : String}
    (hkey : SectionKind.ofName key = .applications) {root root' sections : Mapping}
    (h : SectionRun key root sections root')
    (hsections : ∀ e ∈ sections, e.1.DistinctKeys ∧ e.2.DistinctKeys)
    (hwrites : ∀ e ∈ sections, ¬ WritesRelations e) : root'.getName? "relations" =
      withoutRelationsOf (removedNames sections) (root.getName? "relations") := by
  induction h with
  | nil root => exact (withoutRelationsOf_nil _).symm
  | cons hstep hrun ih =>
      obtain ⟨he, hes⟩ := List.forall_mem_cons.mp hsections
      obtain ⟨hwritese, hwriteses⟩ := List.forall_mem_cons.mp hwrites
      rcases hstep.relations_cases he.1 hkey with ⟨-, -, hmid⟩ | ⟨hwritese', -⟩
      · rw [ih hes hwriteses, hmid, withoutRelationsOf_append]
        rfl
      · exact absurd hwritese' hwritese

/-- Where one section writes the list, it adds to what is left by the sections before it, and
those after it remove from what it has written. -/
theorem SectionRun.relations_eq_of_writes {key : String}
    (hkey : SectionKind.ofName key = .applications) {root root' before after : Mapping}
    {e : Value × Value} (h : SectionRun key root (before ++ e :: after) root')
    (hsections : ∀ f ∈ before ++ e :: after, f.1.DistinctKeys ∧ f.2.DistinctKeys)
    (hwrites : WritesRelations e) (hbefore : ∀ f ∈ before, ¬ WritesRelations f)
    (hafter : ∀ f ∈ after, ¬ WritesRelations f) : root'.getName? "relations" =
      some (.sequence ((((newRelations e).foldl addRelation (listed (withoutRelationsOf
        (removedNames before) (root.getName? "relations")))).filter
          (keptWithout (removedNames after))).map Relation.encode)) := by
  obtain ⟨mid, hrun, hrest⟩ := sectionRun_append_iff.mp h
  have hmid := hrun.relations_eq_of_not_writes hkey (fun f hf => hsections f (by simp [hf])) hbefore
  cases hrest with
  | cons hstep hrun' =>
      rw [hrun'.relations_eq_of_not_writes hkey (fun f hf => hsections f (by simp [hf])) hafter]
      rcases hstep.relations_cases (hsections e (by simp)).1 hkey with ⟨hnot, -⟩ | ⟨-, -, hmid'⟩
      · exact absurd hwrites hnot
      · rw [hmid', hmid, withoutRelationsOf_encode]

/-- At most one section writes the list. -/
theorem Apart.not_writesRelations {key : String} {before after : Mapping} {e : Value × Value}
    (h : Apart key (before ++ e :: after)) (he : WritesRelations e) :
    (∀ f ∈ before, ¬ WritesRelations f) ∧ ∀ f ∈ after, ¬ WritesRelations f := by
  have hown : ∀ f, WritesRelations f → ownKey key f.1 = .string "relations" := by
    intro f hf
    rw [ownKey, hf.1]
  obtain ⟨hbefore, hafter⟩ := h.split
  exact ⟨fun f hf hwrites => hbefore f hf ((hown e he).trans (hown f hwrites).symm),
    fun f hf hwrites => hafter f hf ((hown e he).trans (hown f hwrites).symm)⟩

/-- The list of relations is as it is written. -/
def HoldsRelations (root : Mapping) : Prop :=
  ∃ rs : List Relation, root.getName? "relations" = some (.sequence (rs.map Relation.encode))

/-- A list that was written by a section can be read by the next ones. -/
theorem SectionRun.holdsRelations {key : String} (hkey : SectionKind.ofName key = .applications)
    {root root' sections : Mapping} (h : SectionRun key root sections root')
    (hsections : ∀ e ∈ sections, e.1.DistinctKeys ∧ e.2.DistinctKeys)
    (hroot : HoldsRelations root ∨ ∃ e ∈ sections, WritesRelations e) : HoldsRelations root' := by
  induction h with
  | nil root => exact hroot.elim id fun ⟨e, he, _⟩ => by cases he
  | @cons root mid root' e es hstep hrun ih =>
      obtain ⟨he, hes⟩ := List.forall_mem_cons.mp hsections
      refine ih hes ?_
      rcases hstep.relations_cases he.1 hkey with ⟨hnot, -, hmid⟩ | ⟨-, -, hmid⟩
      · rcases hroot with ⟨rs, hrs⟩ | ⟨f, hf, hwrites⟩
        · rw [hrs, withoutRelationsOf_encode] at hmid
          exact .inl ⟨_, hmid⟩
        · rcases List.mem_cons.mp hf with rfl | hf
          · exact absurd hwrites hnot
          · exact .inr ⟨f, hf, hwrites⟩
      · exact .inl ⟨_, hmid⟩

end BundleCheck.Overlay
