import BundleCheck.Proofs.Overlay.Agreement
import BundleCheck.Proofs.Overlay.Places
import BundleCheck.Proofs.Yaml.Equality

/-! # Applying an overlay again

An overlay that was applied to a document is accepted again, and changes nothing that counts. The
places of a document are looked at one by one: but for the list of relations, each of them is
written by one section of the overlay only, and what this section has written it writes again. -/

namespace BundleCheck.Overlay

open Yaml

/-! ## One section again -/

/-- Applications that were merged are accepted again. -/
theorem acceptsApplication_mergeParts {existing new : Mapping} (hexisting : existing.DistinctKeys)
    (hnew : new.DistinctKeys) (h : ∀ e ∈ new, AcceptsApplication existing e) :
    ∀ e ∈ new, AcceptsApplication (new.foldl mergePart existing) e := by
  intro e he
  obtain ⟨hname, hvalue⟩ := h e he
  refine ⟨hname, hvalue.imp_right ?_⟩
  rintro ⟨fields, hfields, -⟩
  have hk := (hnew.parts e he).1
  have hget : new.get? e.1 = some (.mapping fields) :=
    (Mapping.get?_eq_some_iff hnew hk).mpr ⟨e, he, Value.same_refl _, hfields⟩
  refine ⟨fields, hfields, .inl ⟨mergeFields (fieldsOf (existing.get? e.1)) fields, ?_⟩⟩
  rw [keyLocal_mergePart.get?_foldl hexisting hnew hk, hget]
  rfl

/-- Machines of a section name at most one machine of the document each, and zero is none of
their keys. -/
def NamesOnce (root : Mapping) (e : Value × Value) : Prop :=
  ∀ {new existing : Mapping}, sectionKind? e.1 = some .machines → e.2 = .mapping new →
    (sectionOf root "machines").entries? = some existing →
      (∀ f ∈ new, NamedOnce existing f.1) ∧ ∀ f ∈ new, isZeroKey f.1 = false

/-- A section that finds what it has written is accepted, and writes what agrees with it. -/
theorem SectionStep.again {key : String} (hkey : SectionKind.ofName key = .applications)
    {mid mid' root : Mapping} {e : Value × Value} (h : SectionStep key mid e mid')
    (hmid : mid.DistinctKeys) (he : e.1.DistinctKeys ∧ e.2.DistinctKeys)
    (hrelations : sectionKind? e.1 ≠ some .relations)
    (huntagged : ∀ v, mid.get? (ownKey key e.1) = some v → v.isUntagged = true)
    (hmachines : NamesOnce mid e)
    (hroot : root.get? (ownKey key e.1) = mid'.get? (ownKey key e.1)) :
    ∃ root', SectionStep key root e root' ∧ SectionsAgree (ownKey key e.1)
      (mid'.get? (ownKey key e.1)) (root'.get? (ownKey key e.1)) := by
  have hkind' := sectionKind?_ownKey hkey e.1
  have hdistinct : ∀ {name : String} {existing : Mapping},
      (sectionOf mid name).entries? = some existing → existing.DistinctKeys :=
    distinctKeys_of_entries? (distinctKeys_sectionOf hmid _)
  cases h with
  | null hkind hmeaning => exact ⟨root, .null hkind hmeaning, .of_eq hroot.symm⟩
  | @applications k new existing hkind hexisting haccepts =>
      have hown : ownKey key k = .string key := by rw [ownKey, hkind]
      have hnew := Value.distinctKeys_mapping_iff.mp he.2
      rw [hown] at huntagged hroot hkind' ⊢
      rw [sectionOf_eq_mapping huntagged hexisting] at hroot ⊢
      have hstored := getName?_mergedApplications_self hkey mid
        (.mapping (new.foldl mergePart existing)) (new.filterMap removedName?)
      have hsection := sectionOf_of_mapping (hroot.trans hstored)
      have haccepts' := acceptsApplication_mergeParts (hdistinct hexisting) hnew haccepts
      refine ⟨_, .applications hkind (congrArg Value.entries? hsection) haccepts', ?_⟩
      have hstored' := getName?_mergedApplications_self hkey root
        (.mapping (new.foldl mergePart (new.foldl mergePart existing)))
        (new.filterMap removedName?)
      rw [hsection, SectionsAgree, hkind', hkind]
      exact .inr ⟨_, _, hstored, hstored', keyByKey_mergeParts (hdistinct hexisting) hnew⟩
  | @machines k new existing hkind hexisting =>
      have hown : ownKey key k = .string "machines" := by rw [ownKey, hkind]
      have hnew := Value.distinctKeys_mapping_iff.mp he.2
      obtain ⟨honce, hzero⟩ := hmachines hkind rfl hexisting
      rw [hown] at huntagged hroot hkind' ⊢
      rw [sectionOf_eq_mapping huntagged hexisting] at hroot ⊢
      have hstored : ∀ (m : Mapping) (v : Value),
          (m.insert (.string "machines") v).get? (.string "machines") = some v := fun m v =>
        m.get?_insert_self (Value.distinctKeys_string _) v
      have hsection := sectionOf_of_mapping (hroot.trans (hstored _ _))
      refine ⟨_, .machines hkind (congrArg Value.entries? hsection), ?_⟩
      rw [hsection, hstored, hstored, SectionsAgree, hkind', hkind]
      exact .inr ⟨_, _, rfl, rfl, keyByKey_mergeMachines (hdistinct hexisting) hnew honce hzero⟩
  | relations hkind => exact absurd hkind hrelations
  | @other k v hkind =>
      have hown : ownKey key k = k := by rw [ownKey, hkind]
      refine ⟨_, .other hkind, .of_eq ?_⟩
      rw [hown, Mapping.get?_insert_self mid he.1, Mapping.get?_insert_self root he.1]

/-! ## The list of relations again -/

/-- A second run leaves the relations of the first one, possibly in another order. -/
theorem SectionRun.relationsAgree {key : String} (hkey : SectionKind.ofName key = .applications)
    {root root' root'' sections : Mapping} (h : SectionRun key root sections root')
    (h' : SectionRun key root' sections root'')
    (hsections : ∀ e ∈ sections, e.1.DistinctKeys ∧ e.2.DistinctKeys)
    (hapart : Apart key sections)
    (huntagged : isTaggedList (root.getName? "relations") = false) :
    RelationsAgree (root'.getName? "relations") (root''.getName? "relations") := by
  by_cases hwrites : ∃ e ∈ sections, WritesRelations e
  · obtain ⟨e, he, hwritese⟩ := hwrites
    obtain ⟨before, after, rfl⟩ := List.append_of_mem he
    obtain ⟨hbefore, hafter⟩ := hapart.not_writesRelations hwritese
    have hfirst := h.relations_eq_of_writes hkey hsections hwritese hbefore hafter
    have hsecond := h'.relations_eq_of_writes hkey hsections hwritese hbefore hafter
    rw [hfirst, withoutRelationsOf_encode, listed_encode] at hsecond
    rw [listed_withoutRelationsOf _ huntagged] at hfirst hsecond
    refine .inr ⟨_, _, hfirst, hsecond, (List.Perm.map _ ?_).symm⟩
    exact foldl_addRelation_again (keptWithout_congr _) (keptWithout_congr _)
      (fun r hr => List.of_mem_filter hr) (newRelations e)
  · have hnone : ∀ e ∈ sections, ¬ WritesRelations e := fun e he hw => hwrites ⟨e, he, hw⟩
    left
    rw [h'.relations_eq_of_not_writes hkey hsections hnone,
      h.relations_eq_of_not_writes hkey hsections hnone, withoutRelationsOf_twice]

/-! ## All sections again -/

section Again

variable {key : String} {root root' sections : Mapping}
  (hkey : SectionKind.ofName key = .applications)
  (h : SectionRun key root sections root') (hroot : root.DistinctKeys)
  (hsections : ∀ e ∈ sections, e.1.DistinctKeys ∧ e.2.DistinctKeys) (hapart : Apart key sections)
  (huntagged : ∀ k v, root.get? k = some v → v.isUntagged = true)
  (hmachines : ∀ e ∈ sections, NamesOnce root e)

include hkey h hroot hsections hapart huntagged hmachines

/-- In a second run a section finds in its place what it has written there in the first one. -/
theorem exists_step_again {before after : Mapping} {e : Value × Value}
    (hsplit : sections = before ++ e :: after) (hrelations : sectionKind? e.1 ≠ some .relations)
    {mid : Mapping} (hrun : SectionRun key root' before mid) :
    ∃ mid', SectionStep key mid e mid' ∧ SectionsAgree (ownKey key e.1)
      (root'.get? (ownKey key e.1)) (mid'.get? (ownKey key e.1)) := by
  subst hsplit
  obtain ⟨first, hbefore, hrest⟩ := sectionRun_append_iff.mp h
  obtain ⟨hapartBefore, hapartAfter⟩ := hapart.split
  have hbefores : ∀ f ∈ before, f.1.DistinctKeys ∧ f.2.DistinctKeys :=
    fun f hf => hsections f (by simp [hf])
  have hne : ownKey key e.1 ≠ .string "relations" := by
    intro hown
    rw [← sectionKind?_ownKey hkey, hown] at hrelations
    exact hrelations rfl
  obtain ⟨name, hname⟩ := exists_ownKey_eq_string (hapart.named e (by simp))
  have hj : (ownKey key e.1).DistinctKeys := by
    rw [hname]
    exact Value.distinctKeys_string name
  have hframe : ∀ {r r' : Mapping}, SectionRun key r before r' →
      r'.get? (ownKey key e.1) = r.get? (ownKey key e.1) := fun hr =>
    hr.get?_eq_of_ne_ownKey hbefores (fun f hf => hapart.named f (by simp [hf])) hj hne hapartBefore
  cases hrest with
  | @cons _ second _ _ _ hstep hafter =>
      have hlast : root'.get? (ownKey key e.1) = second.get? (ownKey key e.1) :=
        hafter.get?_eq_of_ne_ownKey (fun f hf => hsections f (by simp [hf]))
          (fun f hf => hapart.named f (by simp [hf])) hj hne hapartAfter
      have honce : NamesOnce first e := by
        intro new existing hkind hvalue hexisting
        have hown : ownKey key e.1 = .string "machines" := by rw [ownKey, hkind]
        have hsame := hframe hbefore
        rw [hown] at hsame
        rw [sectionOf_congr hsame] at hexisting
        exact hmachines e (by simp) hkind hvalue hexisting
      rw [hlast]
      refine hstep.again hkey (hbefore.distinctKeys hroot hbefores) (hsections e (by simp))
        hrelations ?_ honce ((hframe hrun).trans hlast)
      rw [hframe hbefore]
      exact huntagged _

/-- A second run goes through. -/
theorem exists_sectionRun_again : ∃ root'', SectionRun key root' sections root'' := by
  refine exists_sectionRun fun before e after mid hsplit hrun => ?_
  by_cases hrelations : sectionKind? e.1 = some .relations
  · by_cases hnull : e.2 = .null
    · obtain ⟨k, v⟩ := e
      obtain rfl : v = .null := hnull
      exact ⟨mid, .null hrelations nofun⟩
    · have he : e ∈ sections := by simp [hsplit]
      have hheld := h.holdsRelations hkey hsections (.inr ⟨e, he, hrelations, hnull⟩)
      obtain ⟨known, hknown⟩ := hrun.holdsRelations hkey
        (fun f hf => hsections f (by simp [hsplit, hf])) (.inl hheld)
      have hread : readRelations ((mid.getName? "relations").getD .null) =
          Except.ok (ε := Mismatch) known := by
        rw [hknown]
        exact readRelations_encode known
      rw [hsplit] at h
      obtain ⟨first, -, hrest⟩ := sectionRun_append_iff.mp h
      cases hrest with
      | cons hstep hafter =>
          have hadded := (hstep.readRelations_eq ⟨hrelations, hnull⟩).1
          obtain ⟨k, v⟩ := e
          exact ⟨_, .relations hrelations hnull hadded hread⟩
  · obtain ⟨mid', hstep, -⟩ := exists_step_again hkey h hroot hsections hapart huntagged hmachines
      hsplit hrelations hrun
    exact ⟨mid', hstep⟩

/-- A second run changes nothing that counts. -/
theorem keyByKey_again {root'' : Mapping} (h' : SectionRun key root' sections root'') :
    KeyByKey SectionsAgree root' root'' := by
  intro j hj
  by_cases hrelations : j = .string "relations"
  · subst hrelations
    exact h.relationsAgree hkey h' hsections hapart (isTaggedList_eq_false (huntagged _))
  by_cases hown : ∃ e ∈ sections, j = ownKey key e.1
  · obtain ⟨e, he, rfl⟩ := hown
    obtain ⟨before, after, rfl⟩ := List.append_of_mem he
    have hkind : sectionKind? e.1 ≠ some .relations := fun hkind =>
      hrelations (by rw [ownKey, hkind])
    obtain ⟨mid, hbefore, hrest⟩ := sectionRun_append_iff.mp h'
    obtain ⟨mid', hstep', hagree⟩ := exists_step_again hkey h hroot hsections hapart huntagged
      hmachines rfl hkind hbefore
    have hmid : mid.DistinctKeys :=
      hbefore.distinctKeys (h.distinctKeys hroot hsections) fun f hf => hsections f (by simp [hf])
    cases hrest with
    | cons hstep hafter =>
        obtain rfl := hstep.eq hstep' hmid (hsections e he).2
        rw [hafter.get?_eq_of_ne_ownKey (fun f hf => hsections f (by simp [hf]))
          (fun f hf => hapart.named f (by simp [hf])) hj hrelations hapart.split.2]
        exact hagree
  · have hframe := h'.get?_eq_of_ne_ownKey hsections hapart.named hj hrelations
      fun e he hj => hown ⟨e, he, hj⟩
    exact .of_eq hframe.symm

end Again

/-! ## Documents -/

/-- Each machine of an overlay names at most one machine of the base, and none has a floating point
zero for its key. -/
structure NamesMachines (base overlay : Value) : Prop where
  once : ∀ e ∈ machinesOf overlay, ∀ a ∈ machinesOf base, ∀ b ∈ machinesOf base,
    sameMachine a.1 e.1 = true → sameMachine b.1 e.1 = true → a = b
  nonzero : ∀ e ∈ machinesOf overlay, isZeroKey e.1 = false

theorem NamesMachines.namesOnce {root sections : Mapping}
    (h : NamesMachines (.mapping root) (.mapping sections)) (hroot : root.DistinctKeys)
    (hsections : sections.DistinctKeys) {e : Value × Value} (he : e ∈ sections)
    (hnamed : ∃ name, e.1 = .string name) : NamesOnce root e := by
  intro new existing hkind hvalue hexisting
  obtain ⟨name, hname⟩ := hnamed
  have hmachines : name = "machines" := by
    rw [hname, sectionKind?_string, Option.some.injEq] at hkind
    simpa [hkind] using SectionKind.ofName_cases name
  have hdistinct := distinctKeys_of_entries? (distinctKeys_sectionOf hroot _) hexisting
  have hnew : new.DistinctKeys := by
    rw [← Value.distinctKeys_mapping_iff, ← hvalue]
    exact (hsections.parts e he).2
  have hget : sections.getName? "machines" = some (.mapping new) := by
    rw [Mapping.getName?, Mapping.get?_eq_some_iff hsections (Value.distinctKeys_string _)]
    refine ⟨e, he, ?_, hvalue⟩
    rw [hname, hmachines]
    exact Value.same_refl _
  have hoverlay : machinesOf (.mapping sections) = new := by
    change ((sectionOf sections "machines").entries?).getD [] = new
    rw [sectionOf_of_mapping hget]
    rfl
  have hbase : machinesOf (.mapping root) = existing := by
    change ((sectionOf root "machines").entries?).getD [] = existing
    rw [hexisting]
    rfl
  obtain ⟨honce, hnonzero⟩ := h
  rw [hoverlay] at honce hnonzero
  rw [hbase] at honce
  exact ⟨fun f hf => namedOnce_of_sameMachine hdistinct (hnew.parts f hf).1 (honce f hf), hnonzero⟩

/-- Documents that agree have machines under the same keys. -/
theorem DocumentsAgree.isSome_machine_eq {d e : Value} (h : DocumentsAgree d e) {k : Value}
    (hk : k.DistinctKeys) :
    ((machinesOf d).get? k).isSome = ((machinesOf e).get? k).isSome := by
  rcases h with h | ⟨m, n, hd, he, hagree⟩
  · cases h
    rfl
  · cases hd
    cases he
    have hsections : MappingsAgree PartsAgree (Mapping.getName? m "machines")
        (Mapping.getName? n "machines") :=
      hagree (.string "machines") (Value.distinctKeys_string _)
    change (Mapping.get? ((sectionOf m "machines").entries?.getD []) k).isSome =
      (Mapping.get? ((sectionOf n "machines").entries?.getD []) k).isSome
    rcases hsections with hsame | ⟨es, fs, hes, hfs, hparts⟩
    · rw [sectionOf_congr hsame]
    · rw [sectionOf_of_mapping hes, sectionOf_of_mapping hfs]
      change (Mapping.get? es k).isSome = (Mapping.get? fs k).isSome
      rcases hparts k hk with hpart | ⟨p, q, hp, hq, -⟩
      · rw [hpart]
      · rw [hp, hq]
        rfl

/-- Documents without repeated keys and without tags, of which the overlay lists its applications
under one key. -/
structure PlainOverlay (base overlay : Value) : Prop where
  baseKeys : base.DistinctKeys
  overlayKeys : overlay.DistinctKeys
  baseTags : base.isUntagged = true
  overlayTags : overlay.isUntagged = true
  oneKey : ¬ ((rootOf overlay).containsName "applications" = true ∧
    (rootOf overlay).containsName "services" = true)

/-- An overlay is accepted again by the document that it was applied to, and then changes nothing
but the order of entries and relations, and null entries of fields that are merged key by key. -/
theorem apply_again {origin : String} {base overlay d : Value} (hplain : PlainOverlay base overlay)
    (hmachines : NamesMachines base overlay) (h : apply origin base overlay = .ok d) :
    ∃ e, apply origin d overlay = .ok e ∧ DocumentsAgree d e := by
  obtain ⟨hbase, hoverlay, hbaseTags, hoverlayTags, hboth⟩ := hplain
  cases overlay with
  | null =>
      cases h
      exact ⟨base, rfl, .inl rfl⟩
  | mapping sections =>
      have hsections := Value.distinctKeys_mapping_iff.mp hoverlay
      obtain ⟨root, root', hentries, hrun, rfl⟩ := (apply_mapping_eq_ok_iff hbase hsections).mp h
      obtain rfl := Value.eq_mapping_of_entries? hbaseTags hentries
      have hkey := ofName_applicationKey root
      have hroot := Value.distinctKeys_mapping_iff.mp hbase
      have hapart := apart_of_isUntagged hkey hsections hoverlayTags hrun.exists_sectionKind? hboth
      have huntagged := fun k v (hget : root.get? k = some v) =>
        Value.isUntagged_of_get? hbaseTags hget
      have hnames : ∀ e ∈ sections, NamesOnce root e := fun e he =>
        hmachines.namesOnce hroot hsections he (hapart.named e he)
      obtain ⟨root'', hrun'⟩ := exists_sectionRun_again hkey hrun hroot hsections.parts hapart
        huntagged hnames
      have hroot' := distinctKeys_apply hbase hoverlay h
      refine ⟨.mapping root'', (apply_mapping_eq_ok_iff hroot' hsections).mpr
        ⟨root', root'', rfl, ?_, rfl⟩, .inr ⟨root', root'', rfl, rfl, ?_⟩⟩
      · rwa [hrun.applicationKey_eq rfl hsections.parts]
      · exact keyByKey_again hkey hrun hroot hsections.parts hapart huntagged hnames hrun'
  | _ => cases h

/-! ### Overlays that remove and add -/

def siteDocument : Value :=
  .mapping
    [(.string "applications", .mapping
      [(.string "a", .mapping [(.string "charm", .string "x")]),
        (.string "b", .mapping [(.string "charm", .string "y")])]),
      (.string "machines", .mapping [(.string "0", .mapping [])]),
      (.string "relations", .sequence [.sequence [.string "b:one", .string "a:one"]])]

/-- Removes an application, adds another one with a null option, and relates both. -/
def siteOverlay : Value :=
  .mapping
    [(.string "applications", .mapping
      [(.string "a", .null),
        (.string "c", .mapping [(.string "charm", .string "z"),
          (.string "options", .mapping [(.string "debug", .null)])])]),
      (.string "machines", .mapping
        [(.number (.int 0), .mapping [(.string "series", .string "focal")])]),
      (.string "relations", .sequence
        [.sequence [.string "a:two", .string "b:two"],
          .sequence [.string "b:one", .string "c:one"]])]

theorem apply_siteOverlay_again :
    ∃ d, apply "overlay" siteDocument siteOverlay = .ok d ∧
      ∃ e, apply "overlay" d siteOverlay = .ok e ∧ DocumentsAgree d e := by
  have happly : apply "overlay" siteDocument siteOverlay = .ok (.mapping
      [(.string "applications", .mapping
        [(.string "b", .mapping [(.string "charm", .string "y")]),
          (.string "c", .mapping [(.string "charm", .string "z"),
            (.string "options", .mapping [(.string "debug", .null)])])]),
        (.string "machines", .mapping
          [(.string "0", .mapping [(.string "series", .string "focal")])]),
        (.string "relations", .sequence
          [.sequence [.string "a:two", .string "b:two"],
            .sequence [.string "b:one", .string "c:one"]])]) := by decide +kernel
  have hplain : PlainOverlay siteDocument siteOverlay := by
    constructor <;> decide +kernel
  have hmachines : NamesMachines siteDocument siteOverlay := by
    constructor <;> decide +kernel
  exact ⟨_, happly, apply_again hplain hmachines happly⟩

def machineTwice : Value :=
  .mapping [(.string "machines", .mapping
    [(.number (.int 0), .mapping []), (.string "0", .mapping [])])]

def dropMachine : Value :=
  .mapping [(.string "machines", .mapping [(.number (.int 0), .null)])]

def machineZero : Value :=
  .mapping [(.string "machines", .mapping [(.number (.float (.zero false)), .mapping [])])]

/-- Names the machine by the text of zero, and then removes it under the zero with a sign. -/
def dropSignedZero : Value :=
  .mapping [(.string "machines", .mapping
    [(.string "0.0", .mapping []), (.number (.float (.zero true)), .null)])]

/-- A machine that the base has under two keys is removed once at each time; and one that a
floating point zero removes by its key, but does not name, comes back. -/
theorem apply_machines_again_differs :
    (PlainOverlay machineTwice dropMachine ∧ ∃ d e,
      apply "overlay" machineTwice dropMachine = .ok d ∧
        apply "overlay" d dropMachine = .ok e ∧ ¬ DocumentsAgree d e) ∧
    (PlainOverlay machineZero dropSignedZero ∧ ∃ d e,
      apply "overlay" machineZero dropSignedZero = .ok d ∧
        apply "overlay" d dropSignedZero = .ok e ∧ ¬ DocumentsAgree d e) := by
  have hdiffers : ∀ {d e k : Value}, k.DistinctKeys →
      ((machinesOf d).get? k).isSome ≠ ((machinesOf e).get? k).isSome → ¬ DocumentsAgree d e :=
    fun hk hne hagree => hne (hagree.isSome_machine_eq hk)
  refine ⟨⟨?_, .mapping [(.string "machines", .mapping [(.string "0", .mapping [])])],
    .mapping [(.string "machines", .mapping [])], ?_, ?_, ?_⟩, ?_,
    .mapping [(.string "machines", .mapping [])],
    .mapping [(.string "machines", .mapping [(.string "0.0", .mapping [])])], ?_, ?_, ?_⟩
  · constructor <;> decide +kernel
  · decide +kernel
  · decide +kernel
  · exact hdiffers (Value.distinctKeys_string "0") (by decide +kernel)
  · constructor <;> decide +kernel
  · decide +kernel
  · decide +kernel
  · exact hdiffers (Value.distinctKeys_string "0.0") (by decide +kernel)

end BundleCheck.Overlay
