import BundleCheck.Proofs.Overlay.Acceptance
import BundleCheck.Proofs.Overlay.Idempotence

/-! # Overlays that are refused

An overlay is applied to a document exactly if each of its sections fits the document as it was at
the start, whatever the order of the sections. If the charm of a new application is all that is
missing, the first such application is named. -/

namespace BundleCheck.Overlay

open Yaml

variable {key origin : String} {root root' sections : Mapping} {e : Value × Value}

/-! ## Sections that are taken -/

/-- A document takes a section of an overlay. -/
@[mk_iff]
structure Takes (key : String) (root : Mapping) (e : Value × Value) : Prop where
  kind : ∃ kind, sectionKind? e.1 = some kind
  applications : sectionKind? e.1 = some .applications → e.2 ≠ .null →
    HasEntries root key ∧ ∃ new, e.2 = .mapping new ∧
      ∀ a ∈ new, AcceptsApplication (applicationsUnder key root) a
  machines : sectionKind? e.1 = some .machines → e.2 ≠ .null →
    HasEntries root "machines" ∧ ∃ new, e.2 = .mapping new
  relations : sectionKind? e.1 = some .relations → e.2 ≠ .null →
    Readable (some e.2) ∧ Readable (root.getName? "relations")

theorem takes_of_kind_other (h : sectionKind? e.1 = some .other) : Takes key root e := by
  constructor <;> simp [h]

theorem takes_null {k : Value} {kind : SectionKind} (h : sectionKind? k = some kind) :
    Takes key root (k, .null) := by
  constructor <;> simp [h]

/-- A section is applied exactly if it is taken. -/
theorem exists_sectionStep_iff : (∃ root', SectionStep key root e root') ↔ Takes key root e := by
  constructor
  · rintro ⟨root', h⟩
    cases h with
    | null hkind hmeaning => exact takes_null hkind
    | applications hkind hexisting haccepts =>
        constructor <;> simp only [hkind, Option.some.injEq, reduceCtorEq, false_implies,
          exists_eq']
        intro _ _
        refine ⟨⟨_, hexisting⟩, _, rfl, ?_⟩
        rwa [applicationsUnder, hexisting]
    | machines hkind hexisting =>
        constructor <;> simp only [hkind, Option.some.injEq, reduceCtorEq, false_implies,
          exists_eq']
        exact fun _ _ => ⟨⟨_, hexisting⟩, _, rfl⟩
    | relations hkind hvalue hadded hknown =>
        constructor <;> simp only [hkind, Option.some.injEq, reduceCtorEq, false_implies,
          exists_eq']
        exact fun _ _ => ⟨⟨_, hadded⟩, _, hknown⟩
    | other hkind => exact takes_of_kind_other hkind
  · intro h
    obtain ⟨k, v⟩ := e
    obtain ⟨kind, hkind⟩ := h.kind
    by_cases hother : kind = .other
    · subst hother
      exact ⟨_, .other hkind⟩
    by_cases hnull : v = .null
    · subst hnull
      exact ⟨root, .null hkind hother⟩
    cases kind with
    | applications =>
        obtain ⟨⟨existing, hexisting⟩, new, rfl, haccepts⟩ := h.applications hkind hnull
        rw [applicationsUnder, hexisting, Option.getD_some] at haccepts
        exact ⟨_, .applications hkind hexisting haccepts⟩
    | machines =>
        obtain ⟨⟨existing, hexisting⟩, new, rfl⟩ := h.machines hkind hnull
        exact ⟨_, .machines hkind hexisting⟩
    | relations =>
        obtain ⟨⟨added, hadded⟩, known, hknown⟩ := h.relations hkind hnull
        exact ⟨_, .relations hkind hnull hadded hknown⟩
    | other => exact absurd rfl hother

/-- What a document takes depends on its means and on its applications. -/
theorem Takes.congr (h : Takes key root e) (hmeans : SameMeans key root root')
    (happlications : sectionKind? e.1 = some .applications →
      applicationsUnder key root' = applicationsUnder key root) : Takes key root' e where
  kind := h.kind
  applications hkind hnull := by
    rw [happlications hkind, ← hmeans.applications]
    exact h.applications hkind hnull
  machines hkind hnull := by
    rw [← hmeans.machines]
    exact h.machines hkind hnull
  relations hkind hnull := by
    rw [← hmeans.relations]
    exact h.relations hkind hnull

/-! ## Runs -/

/-- At most one section lists applications. -/
def OneList (sections : Mapping) : Prop :=
  sections.Pairwise fun e f =>
    ¬ (sectionKind? e.1 = some .applications ∧ sectionKind? f.1 = some .applications)

/-- A section changes nothing that decides on the sections behind it. -/
theorem SectionStep.takes_iff (hkey : SectionKind.ofName key = .applications)
    (h : SectionStep key root e root') (he : e.1.DistinctKeys) {f : Value × Value}
    (hone : ¬ (sectionKind? e.1 = some .applications ∧ sectionKind? f.1 = some .applications)) :
    Takes key root' f ↔ Takes key root f := by
  have hmeans := h.sameMeans hkey he
  have happlications : sectionKind? f.1 = some .applications →
      applicationsUnder key root' = applicationsUnder key root := by
    intro hf
    rw [h.applicationsUnder_eq he hkey, newApplications_eq_nil fun hkind => hone ⟨hkind, hf⟩]
    rfl
  exact ⟨fun hf => hf.congr hmeans.symm fun hkind => (happlications hkind).symm,
    fun hf => hf.congr hmeans happlications⟩

/-- Sections are applied in order exactly if the document takes each of them. -/
theorem exists_sectionRun_iff (hkey : SectionKind.ofName key = .applications)
    (hsections : ∀ e ∈ sections, e.1.DistinctKeys ∧ e.2.DistinctKeys) (hone : OneList sections) :
    (∃ root', SectionRun key root sections root') ↔ ∀ e ∈ sections, Takes key root e := by
  induction sections generalizing root with
  | nil => exact iff_of_true ⟨root, .nil root⟩ nofun
  | cons e es ih =>
      obtain ⟨he, hes⟩ := List.forall_mem_cons.mp hsections
      obtain ⟨honee, hones⟩ := List.pairwise_cons.mp hone
      rw [List.forall_mem_cons, ← exists_sectionStep_iff]
      have hrest : ∀ {mid}, SectionStep key root e mid →
          ((∃ root', SectionRun key mid es root') ↔ ∀ f ∈ es, Takes key root f) := by
        intro mid hstep
        rw [ih hes hones]
        exact forall₂_congr fun f hf => hstep.takes_iff hkey he.1 (honee f hf)
      constructor
      · rintro ⟨root', hrun⟩
        cases hrun with
        | cons hstep hrun => exact ⟨⟨_, hstep⟩, (hrest hstep).mp ⟨_, hrun⟩⟩
      · rintro ⟨⟨mid, hstep⟩, hes⟩
        obtain ⟨root', hrun⟩ := (hrest hstep).mpr hes
        exact ⟨root', .cons hstep hrun⟩

/-! ## Applications without a charm -/

/-- The application is new to the document and has no charm. -/
def LacksCharm (root : Mapping) (a : Value × Value) : Prop :=
  ∃ fields, a.2 = .mapping fields ∧ Mapping.containsName fields "charm" = false ∧
    ¬ ∃ existing,
      (applicationsUnder (applicationKey root) root).get? a.1 = some (.mapping existing)

theorem mergeEach_append (base : Mapping) (removed : List String) (front back : Mapping) :
    mergeEach origin base removed (front ++ back) =
      mergeEach origin base removed front >>= fun r => mergeEach origin r.1 r.2 back := by
  induction front generalizing base removed with
  | nil => rfl
  | cons a as ih =>
      rw [List.cons_append, mergeEach, mergeEach, bind_assoc]
      exact bind_congr fun r => ih r.1 _

/-- The first application that cannot be brought is named. -/
theorem mergeEach_missingCharm {base before after fields : Mapping} {k : Value} {name : String}
    {removed : List String} (hbase : base.DistinctKeys)
    (hnew : (before ++ (k, .mapping fields) :: after).DistinctKeys)
    (hbefore : ∀ a ∈ before, AcceptsApplication base a) (hname : k.text? = some name)
    (hcharm : Mapping.containsName fields "charm" = false)
    (hfresh : ¬ ∃ existing, base.get? k = some (.mapping existing)) :
    mergeEach origin base removed (before ++ (k, .mapping fields) :: after) =
      .error (.overlayMissingCharm name) := by
  have hdistinct : before.DistinctKeys := hnew.sublist (List.sublist_append_left _ _)
  have hk : k.DistinctKeys := (hnew.parts (k, .mapping fields) (by simp)).1
  have hmerged : mergeEach origin base removed before =
      .ok (before.foldl mergePart base, removed ++ before.filterMap removedName?) :=
    (mergeEach_eq_ok_iff hbase hdistinct).mpr ⟨hbefore, rfl⟩
  -- What comes before has other keys.
  have hget : Mapping.get? (before.foldl mergePart base) k = base.get? k := by
    refine get?_foldl_mergePart_of_same_eq_false hbase hdistinct.parts hk fun a ha => ?_
    exact (List.pairwise_append.mp hnew.keys).2.2 a ha (k, .mapping fields) (by simp)
  have hhead : mergeApplication origin (before.foldl mergePart base) (k, .mapping fields) =
      .error (.overlayMissingCharm name) := by
    unfold mergeApplication
    simp only [hname, hget]
    split
    next existing hexisting => exact absurd ⟨existing, hexisting⟩ hfresh
    · rw [hcharm, if_neg Bool.false_ne_true]
  rw [mergeEach_append, hmerged, ok_bind, mergeEach, hhead]
  rfl

/-! ## Sections that fit a document -/

def IsMappingOrNone (v? : Option Value) : Prop :=
  ∀ v, v? = some v → v = .null ∨ ∃ es, v = .mapping es

/-- An application under a text, which is null or a mapping. -/
def IsApplicationEntry (a : Value × Value) : Prop :=
  (∃ name, a.1 = .string name) ∧ (a.2 = .null ∨ ∃ fields, a.2 = .mapping fields)

/-- The section fits the document, but for the charms of new applications. A section that is null
always does, and so does one that is not merged. Lists of relations that are not there or null can
be read. -/
@[mk_iff]
structure Fits (root : Mapping) (e : Value × Value) : Prop where
  name : ∃ name, e.1 = .string name
  applications : e.1 = .string "applications" ∨ e.1 = .string "services" → e.2 ≠ .null →
    IsMappingOrNone (root.getName? (applicationKey root)) ∧ ∃ new, e.2 = .mapping new ∧
      ∀ a ∈ new, IsApplicationEntry a
  machines : e.1 = .string "machines" → e.2 ≠ .null →
    IsMappingOrNone (root.getName? "machines") ∧ ∃ new, e.2 = .mapping new
  relations : e.1 = .string "relations" → e.2 ≠ .null →
    Readable (some e.2) ∧ Readable (root.getName? "relations")

section

variable {k : Value}

theorem sectionKind?_eq_some_iff (hk : k.isUntagged = true) {kind : SectionKind} :
    sectionKind? k = some kind ↔ ∃ name, k = .string name ∧ SectionKind.ofName name = kind := by
  constructor
  · intro h
    obtain ⟨name, hname, hkind⟩ := Option.map_eq_some_iff.mp h
    exact ⟨name, Value.eq_string_of_text? hk hname, hkind⟩
  · rintro ⟨name, rfl, hkind⟩
    exact congrArg some hkind

def SectionKind.names : SectionKind → List String
  | .applications => ["applications", "services"]
  | .machines => ["machines"]
  | .relations => ["relations"]
  | .other => []

theorem sectionKind?_eq_iff_names (hk : k.isUntagged = true) {kind : SectionKind}
    (hkind : kind ≠ .other) :
    sectionKind? k = some kind ↔ ∃ name ∈ kind.names, k = .string name := by
  rw [sectionKind?_eq_some_iff hk]
  constructor
  · rintro ⟨name, rfl, hname⟩
    refine ⟨name, ?_, rfl⟩
    have hcases := SectionKind.ofName_cases name
    cases kind <;> simp_all [SectionKind.names]
  · rintro ⟨name, hname, rfl⟩
    refine ⟨name, rfl, ?_⟩
    revert name
    cases kind <;> decide

theorem sectionKind?_eq_applications_iff (hk : k.isUntagged = true) :
    sectionKind? k = some .applications ↔ k = .string "applications" ∨ k = .string "services" := by
  simp [sectionKind?_eq_iff_names hk, SectionKind.names]

theorem sectionKind?_eq_machines_iff (hk : k.isUntagged = true) :
    sectionKind? k = some .machines ↔ k = .string "machines" := by
  simp [sectionKind?_eq_iff_names hk, SectionKind.names]

theorem sectionKind?_eq_relations_iff (hk : k.isUntagged = true) :
    sectionKind? k = some .relations ↔ k = .string "relations" := by
  simp [sectionKind?_eq_iff_names hk, SectionKind.names]

end

theorem hasEntries_iff_isMappingOrNone {name : String}
    (huntagged : ∀ v, root.getName? name = some v → v.isUntagged = true) :
    HasEntries root name ↔ IsMappingOrNone (root.getName? name) := by
  unfold HasEntries IsMappingOrNone sectionOf
  cases hget : root.getName? name with
  | none => exact iff_of_true ⟨[], rfl⟩ nofun
  | some v =>
      have hv := huntagged v hget
      cases v with
      | null => exact iff_of_true ⟨[], rfl⟩ (by simp)
      | mapping es => exact iff_of_true ⟨es, rfl⟩ (by simp)
      | tagged tag w => cases hv
      | _ => simp [Value.isNull, Value.untagged, Value.entries?]

/-- An application is accepted if it is well formed and does not lack a charm. -/
theorem acceptsApplication_iff {a : Value × Value} (ha : a.1.isUntagged = true) :
    AcceptsApplication (applicationsUnder (applicationKey root) root) a ↔
      IsApplicationEntry a ∧ ¬ LacksCharm root a := by
  have hname : a.1.text?.isSome = true ↔ ∃ name, a.1 = .string name := by
    rw [Option.isSome_iff_exists]
    exact exists_congr fun name => ⟨Value.eq_string_of_text? ha, fun h => by rw [h]; rfl⟩
  rw [AcceptsApplication, IsApplicationEntry, hname, and_assoc]
  refine and_congr_right fun _ => ?_
  cases hvalue : a.2 with
  | mapping fields =>
      simp only [reduceCtorEq, false_or, Value.mapping.injEq, exists_eq_left', exists_eq',
        true_and, LacksCharm, hvalue, not_and, not_not, ← Bool.not_eq_true]
      tauto
  | _ => simp [LacksCharm, hvalue]

/-- Applications are taken if they are well formed and none of them lacks a charm. -/
theorem takesApplications_iff (hroot : (Value.mapping root).isUntagged = true)
    (he : e.2.isUntagged = true) :
    (sectionKind? e.1 = some .applications → e.2 ≠ .null →
      HasEntries root (applicationKey root) ∧ ∃ new, e.2 = .mapping new ∧
        ∀ a ∈ new, AcceptsApplication (applicationsUnder (applicationKey root) root) a) ↔
    (sectionKind? e.1 = some .applications → e.2 ≠ .null →
      IsMappingOrNone (root.getName? (applicationKey root)) ∧ ∃ new, e.2 = .mapping new ∧
        ∀ a ∈ new, IsApplicationEntry a) ∧
      ∀ a ∈ newApplications e, ¬ LacksCharm root a := by
  obtain ⟨k, v⟩ := e
  have hentries : HasEntries root (applicationKey root) ↔
      IsMappingOrNone (root.getName? (applicationKey root)) :=
    hasEntries_iff_isMappingOrNone fun v hv => Value.isUntagged_of_get? hroot hv
  by_cases hkind : sectionKind? k = some .applications
  · cases v with
    | mapping new =>
        have haccepts : (∀ a ∈ new,
            AcceptsApplication (applicationsUnder (applicationKey root) root) a) ↔
              (∀ a ∈ new, IsApplicationEntry a) ∧ ∀ a ∈ new, ¬ LacksCharm root a := by
          rw [← forall₂_and]
          exact forall₂_congr fun a ha =>
            acceptsApplication_iff (Value.isUntagged_mapping_iff.mp he a ha).1
        rw [newApplications_of_mapping hkind rfl]
        simp only [hkind, hentries, haccepts, ne_eq, reduceCtorEq, not_false_eq_true,
          true_implies, Value.mapping.injEq, exists_eq_left', and_assoc]
    | _ => simp [newApplications, hkind]
  · have hnil : newApplications (k, v) = [] := newApplications_eq_nil hkind
    simp [hkind, hnil]

/-- A document without tags takes the sections that fit it and whose new applications have a
charm. -/
theorem takes_iff_fits (hroot : (Value.mapping root).isUntagged = true)
    (he : e.1.isUntagged = true ∧ e.2.isUntagged = true) :
    Takes (applicationKey root) root e ↔
      Fits root e ∧ ∀ a ∈ newApplications e, ¬ LacksCharm root a := by
  have hentries : HasEntries root "machines" ↔ IsMappingOrNone (root.getName? "machines") :=
    hasEntries_iff_isMappingOrNone fun v hv => Value.isUntagged_of_get? hroot hv
  have hname : (∃ kind, sectionKind? e.1 = some kind) ↔ ∃ name, e.1 = .string name := by
    simp [sectionKind?_eq_some_iff he.1]
  rw [takes_iff, fits_iff, takesApplications_iff hroot he.2, hname, hentries,
    sectionKind?_eq_applications_iff he.1, sectionKind?_eq_machines_iff he.1,
    sectionKind?_eq_relations_iff he.1]
  constructor
  · rintro ⟨hkey, ⟨happlications, hcharm⟩, hmachines, hrelations⟩
    exact ⟨⟨hkey, happlications, hmachines, hrelations⟩, hcharm⟩
  · rintro ⟨⟨hkey, happlications, hmachines, hrelations⟩, hcharm⟩
    exact ⟨hkey, ⟨happlications, hcharm⟩, hmachines, hrelations⟩

/-- Sections without tags, of which not both list applications, have one list of them. -/
theorem oneList_of_isUntagged (hdistinct : sections.DistinctKeys)
    (huntagged : (Value.mapping sections).isUntagged = true)
    (hboth : ¬ (sections.containsName "applications" = true ∧
      sections.containsName "services" = true)) : OneList sections := by
  have htags := Value.isUntagged_mapping_iff.mp huntagged
  refine hdistinct.keys.imp_of_mem fun {e f} he hf hne => ?_
  rw [sectionKind?_eq_applications_iff (htags e he).1,
    sectionKind?_eq_applications_iff (htags f hf).1]
  rintro ⟨hnamee | hnamee, hnamef | hnamef⟩
  · rw [hnamee, hnamef, Value.same_refl] at hne
    cases hne
  · exact hboth ⟨containsName_of_mem he hnamee, containsName_of_mem hf hnamef⟩
  · exact hboth ⟨containsName_of_mem hf hnamef, containsName_of_mem he hnamee⟩
  · rw [hnamee, hnamef, Value.same_refl] at hne
    cases hne

/-! ## The application that is named -/

theorem applySection_missingCharm {k v : Value} {before after fields : Mapping} {name : String}
    (hroot : root.DistinctKeys) (hkind : sectionKind? k = some .applications)
    (hentries : HasEntries root key)
    (hnew : (before ++ (v, .mapping fields) :: after).DistinctKeys)
    (hbefore : ∀ a ∈ before, AcceptsApplication (applicationsUnder key root) a)
    (hname : v.text? = some name) (hcharm : Mapping.containsName fields "charm" = false)
    (hfresh : ¬ ∃ existing,
      (applicationsUnder key root).get? v = some (.mapping existing)) :
    applySection origin key root (k, .mapping (before ++ (v, .mapping fields) :: after)) =
      .error (.overlayMissingCharm name) := by
  obtain ⟨existing, hexisting⟩ := hentries
  have hunder : applicationsUnder key root = existing := by
    rw [applicationsUnder, hexisting, Option.getD_some]
  rw [hunder] at hbefore hfresh
  have hdistinct := distinctKeys_of_entries? (distinctKeys_sectionOf hroot key) hexisting
  rw [applySection_eq, hkind]
  simp only [mergeApplications, hexisting,
    mergeEach_missingCharm hdistinct hnew hbefore hname hcharm hfresh]
  rfl

/-- The section that gives an application is the only one that gives any. -/
theorem exists_section_of_newApplications (hone : OneList sections) {new : Mapping}
    (h : sections.flatMap newApplications = new) (hne : new ≠ []) :
    ∃ front k back, sections = front ++ (k, .mapping new) :: back ∧
      sectionKind? k = some .applications ∧
        ∀ f ∈ front, sectionKind? f.1 ≠ some .applications := by
  obtain ⟨a, ha⟩ := List.exists_mem_of_ne_nil new hne
  rw [← h] at ha
  obtain ⟨⟨k, v⟩, he, ha⟩ := List.mem_flatMap.mp ha
  have hkind : sectionKind? k = some .applications := by
    by_contra hkind
    rw [newApplications_eq_nil hkind] at ha
    cases ha
  obtain ⟨front, back, rfl⟩ := List.append_of_mem he
  obtain ⟨-, hback, hfront⟩ := List.pairwise_append.mp hone
  have hfront' : ∀ f ∈ front, sectionKind? f.1 ≠ some .applications :=
    fun f hf hf' => hfront f hf (k, v) (by simp) ⟨hf', hkind⟩
  have hback' : ∀ f ∈ back, sectionKind? f.1 ≠ some .applications :=
    fun f hf hf' => (List.pairwise_cons.mp hback).1 f hf ⟨hkind, hf'⟩
  have hnil : ∀ es : Mapping, (∀ f ∈ es, sectionKind? f.1 ≠ some .applications) →
      es.flatMap newApplications = [] :=
    fun es hes => List.flatMap_eq_nil_iff.mpr fun f hf => newApplications_eq_nil (hes f hf)
  rw [List.flatMap_append, List.flatMap_cons, hnil front hfront', hnil back hback',
    List.nil_append, List.append_nil] at h
  refine ⟨front, k, back, ?_, hkind, hfront'⟩
  unfold newApplications at h ha
  split at h
  next new' _ hvalue =>
    change v = .mapping new' at hvalue
    rw [hvalue, h]
  · exact absurd h.symm hne

/-- Sections that fit and list no applications are applied, and leave the applications alone. -/
theorem exists_run_of_no_applications (hroot : (Value.mapping root).isUntagged = true)
    (hdistinct : ∀ e ∈ sections, e.1.DistinctKeys ∧ e.2.DistinctKeys)
    (htags : ∀ e ∈ sections, e.1.isUntagged = true ∧ e.2.isUntagged = true)
    (hfits : ∀ e ∈ sections, Fits root e)
    (hkinds : ∀ e ∈ sections, sectionKind? e.1 ≠ some .applications) :
    ∃ root', SectionRun (applicationKey root) root sections root' ∧
      applicationsUnder (applicationKey root) root' =
        applicationsUnder (applicationKey root) root := by
  have hkey := ofName_applicationKey root
  have hone : OneList sections :=
    List.pairwise_of_forall_mem_list fun e he f _ h => hkinds e he h.1
  have htakes : ∀ e ∈ sections, Takes (applicationKey root) root e := by
    intro e he
    refine (takes_iff_fits hroot (htags e he)).mpr ⟨hfits e he, ?_⟩
    rw [newApplications_eq_nil (hkinds e he)]
    exact nofun
  obtain ⟨root', hrun⟩ := (exists_sectionRun_iff hkey hdistinct hone).mpr htakes
  refine ⟨root', hrun, ?_⟩
  rw [hrun.applicationsUnder_eq hkey hdistinct,
    List.flatMap_eq_nil_iff.mpr fun e he => newApplications_eq_nil (hkinds e he)]
  rfl

/-- The section behind a run decides, if it fails. -/
theorem apply_of_run_of_error {front back : Mapping} {failure : Failure} (hroot : root.DistinctKeys)
    (hfront : ∀ f ∈ front, f.1.DistinctKeys ∧ f.2.DistinctKeys)
    (hrun : SectionRun (applicationKey root) root front root')
    (h : applySection origin (applicationKey root) root' e = .error failure) :
    apply origin (.mapping root) (.mapping (front ++ e :: back)) = .error failure := by
  have hfold : front.foldlM (applySection origin (applicationKey root)) root = .ok root' :=
    (foldlM_applySection_eq_ok_iff hroot hfront).mpr hrun
  change (_ >>= fun merged => pure ((Value.mapping root).withEntries merged)) = _
  rw [List.foldlM_append, hfold, ok_bind, List.foldlM_cons, h]
  rfl

/-- If the charm of a new application is all that is missing, the first one without is named. -/
theorem apply_missingCharm (hroot : (Value.mapping root).DistinctKeys)
    (hdistinct : sections.DistinctKeys) (hroottags : (Value.mapping root).isUntagged = true)
    (htags : (Value.mapping sections).isUntagged = true) (hone : OneList sections)
    (hfits : ∀ e ∈ sections, Fits root e) {before after : Mapping} {name : String} {v : Value}
    (hnew : sections.flatMap newApplications = before ++ (.string name, v) :: after)
    (hbefore : ∀ a ∈ before, ¬ LacksCharm root a) (hlacks : LacksCharm root (.string name, v)) :
    apply origin (.mapping root) (.mapping sections) = .error (.overlayMissingCharm name) := by
  have hroot' := Value.distinctKeys_mapping_iff.mp hroot
  obtain ⟨front, k, back, rfl, hkind, hfront⟩ :=
    exists_section_of_newApplications hone hnew (by simp)
  obtain ⟨fields, hfields, hcharm, hfresh⟩ := hlacks
  obtain rfl : v = .mapping fields := hfields
  have hparts := hdistinct.parts
  have htags' := Value.isUntagged_mapping_iff.mp htags
  simp only [List.forall_mem_append, List.forall_mem_cons] at hparts htags' hfits
  obtain ⟨hparts, hsectionParts, -⟩ := hparts
  obtain ⟨hfrontTags, hsectionTags, -⟩ := htags'
  obtain ⟨hfrontFits, hsectionFits, -⟩ := hfits
  obtain ⟨mid, hrun, hunder⟩ :=
    exists_run_of_no_applications hroottags hparts hfrontTags hfrontFits hfront
  obtain ⟨hlist, new, hnew', hall⟩ := hsectionFits.applications
    ((sectionKind?_eq_applications_iff hsectionTags.1).mp hkind) (by simp)
  obtain rfl := Value.mapping.inj hnew'
  have hentries : HasEntries mid (applicationKey root) := by
    rw [← (hrun.sameMeans (ofName_applicationKey root) hparts).applications,
      hasEntries_iff_isMappingOrNone]
    · exact hlist
    · exact fun v hv => Value.isUntagged_of_get? hroottags hv
  have haccepts : ∀ a ∈ before,
      AcceptsApplication (applicationsUnder (applicationKey root) mid) a := by
    intro a ha
    have hmem : a ∈ before ++ (Value.string name, Value.mapping fields) :: after :=
      List.mem_append_left _ ha
    rw [hunder, acceptsApplication_iff (Value.isUntagged_mapping_iff.mp hsectionTags.2 a hmem).1]
    exact ⟨hall a hmem, hbefore a ha⟩
  rw [← hunder] at hfresh
  exact apply_of_run_of_error hroot' hparts hrun (applySection_missingCharm
    (hrun.distinctKeys hroot' hparts) hkind hentries
    (Value.distinctKeys_mapping_iff.mp hsectionParts.2) haccepts rfl hcharm hfresh)

/-! ## All overlays -/

/-- An overlay is applied exactly if it is null, or if it and the document are mappings, each of its
sections fits the document, and no new application lacks a charm. If a charm is all that is missing,
the first application that lacks one is named. -/
theorem apply_ok_iff_fits {base overlay : Value} (hplain : PlainOverlay base overlay) :
    ((∃ d, apply origin base overlay = .ok d) ↔
      overlay = .null ∨ ∃ root sections, base = .mapping root ∧ overlay = .mapping sections ∧
        (∀ e ∈ sections, Fits root e) ∧
        ∀ a ∈ sections.flatMap newApplications, ¬ LacksCharm root a) ∧
      ∀ root sections, base = .mapping root → overlay = .mapping sections →
        (∀ e ∈ sections, Fits root e) → ∀ before name v after,
          sections.flatMap newApplications = before ++ (.string name, v) :: after →
          (∀ a ∈ before, ¬ LacksCharm root a) → LacksCharm root (.string name, v) →
          apply origin base overlay = .error (.overlayMissingCharm name) := by
  obtain ⟨hbase, hoverlay, hbaseTags, hoverlayTags, hboth⟩ := hplain
  constructor
  · cases overlay with
    | null => exact iff_of_true ⟨base, rfl⟩ (.inl rfl)
    | mapping sections =>
        have hsections := Value.distinctKeys_mapping_iff.mp hoverlay
        have hone := oneList_of_isUntagged hsections hoverlayTags hboth
        have htakes : ∀ {root}, base = .mapping root →
            ((∃ root', SectionRun (applicationKey root) root sections root') ↔
              (∀ e ∈ sections, Fits root e) ∧
                ∀ a ∈ sections.flatMap newApplications, ¬ LacksCharm root a) := by
          rintro root rfl
          rw [exists_sectionRun_iff (ofName_applicationKey root) hsections.parts hone,
            List.forall_mem_flatMap, ← forall₂_and]
          exact forall₂_congr fun e he =>
            takes_iff_fits hbaseTags (Value.isUntagged_mapping_iff.mp hoverlayTags e he)
        simp only [apply_mapping_eq_ok_iff hbase hsections]
        constructor
        · rintro ⟨d, root, root', hentries, hrun, -⟩
          have hroot := Value.eq_mapping_of_entries? hbaseTags hentries
          exact .inr ⟨root, sections, hroot, rfl, (htakes hroot).mp ⟨root', hrun⟩⟩
        · rintro (h | ⟨root, sections', hroot, h, hall⟩)
          · cases h
          · cases h
            obtain ⟨root', hrun⟩ := (htakes hroot).mpr hall
            exact ⟨_, root, root', by rw [hroot]; rfl, hrun, rfl⟩
    | _ => simp [apply]
  · rintro root sections rfl rfl hfits before name v after hnew hbefore hlacks
    have hsections := Value.distinctKeys_mapping_iff.mp hoverlay
    exact apply_missingCharm hbase hsections hbaseTags hoverlayTags
      (oneList_of_isUntagged hsections hoverlayTags hboth) hfits hnew hbefore hlacks

/-- Relates an application that it brings, removes and changes others, and brings two that have no
charm. -/
def charmlessOverlay : Value :=
  .mapping
    [(.string "relations", .sequence [.sequence [.string "b:two", .string "cache:two"]]),
      (.string "applications", .mapping
        [(.string "a", .null),
          (.string "b", .mapping [(.string "num_units", .number (.int 2))]),
          (.string "proxy", .mapping [(.string "charm", .string "z")]),
          (.string "cache", .mapping [(.string "num_units", .number (.int 1))]),
          (.string "store", .mapping [])])]

theorem apply_charmlessOverlay :
    PlainOverlay siteDocument charmlessOverlay ∧
      apply "overlay" siteDocument charmlessOverlay = .error (.overlayMissingCharm "cache") := by
  have hplain : PlainOverlay siteDocument charmlessOverlay := by
    constructor <;> decide +kernel
  refine ⟨hplain, (apply_ok_iff_fits hplain).2 _ _ rfl rfl ?fits
    [(.string "a", .null), (.string "b", .mapping [(.string "num_units", .number (.int 2))]),
      (.string "proxy", .mapping [(.string "charm", .string "z")])] "cache" _
    [(.string "store", .mapping [])] rfl ?before ?lacks⟩
  case fits =>
    simp only [List.forall_mem_cons, List.not_mem_nil, false_implies, implies_true, and_true]
    refine ⟨⟨⟨_, rfl⟩, by simp, by simp, fun _ _ => ⟨⟨_, rfl⟩, _, rfl⟩⟩,
      ⟨_, rfl⟩, fun _ _ => ⟨?_, _, rfl, by simp [IsApplicationEntry]⟩, by simp, by simp⟩
    rintro v hv
    cases hv
    exact .inr ⟨_, rfl⟩
  case before =>
    simp only [List.forall_mem_cons, List.not_mem_nil, false_implies, implies_true, and_true]
    refine ⟨?removed, ?changed, ?charmed⟩
    case removed =>
      rintro ⟨fields, hfields, -⟩
      cases hfields
    case changed =>
      rintro ⟨fields, -, -, hfresh⟩
      exact hfresh ⟨_, rfl⟩
    case charmed =>
      rintro ⟨fields, hfields, hcharm, -⟩
      cases hfields
      cases hcharm
  case lacks =>
    refine ⟨_, rfl, rfl, ?_⟩
    rintro ⟨existing, hexisting⟩
    cases hexisting

end BundleCheck.Overlay
