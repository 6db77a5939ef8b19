import BundleCheck.Proofs.Overlay.Acceptance
import BundleCheck.Proofs.Overlay.Agreement
import BundleCheck.Proofs.Overlay.Outlines

/-! # Independent overlays

Overlays that name nothing in common can be applied in either order: both orders are accepted or
neither is, and what they give differs only in the order of entries and relations, and in the form
in which a relation is written. -/

namespace BundleCheck.Overlay

open Yaml

/-! ## Matching documents -/

/-- Sections are equal, or hold the same entries, or list the same relations. -/
inductive SectionsMatch : Value → Option Value → Option Value → Prop
  | same (k : Value) (v? : Option Value) : SectionsMatch k v? v?
  | entries (k v : Value) {es fs : Mapping} (h : es.Perm fs) :
      SectionsMatch k (some (v.withEntries es)) (some (v.withEntries fs))
  | relations {k : Value} (hk : k = .string "relations") {v? w? : Option Value}
      (h : ListsMatch v? w?) : SectionsMatch k v? w?

/-- Documents are equal up to the order of entries and relations, and the form of relations. -/
def DocumentsMatch (d e : Value) : Prop :=
  d = e ∨ ∃ (v : Value) (m n : Mapping), d = v.withEntries m ∧ e = v.withEntries n ∧
    KeyByKey SectionsMatch m n

/-! ## Independent sections -/

/-- Sections of two overlays name no application, no machine and no other section in common, and
neither list relations of an application that the other ones remove. -/
structure Independent (xs ys : Mapping) : Prop where
  applications : ∀ e ∈ xs.flatMap newApplications, ∀ f ∈ ys.flatMap newApplications,
    e.1.same f.1 = false
  machines : ∀ e ∈ xs.flatMap newMachines, ∀ f ∈ ys.flatMap newMachines, NamesApart e.1 f.1
  others : ∀ e ∈ xs, ∀ f ∈ ys, sectionKind? e.1 = some .other → e.1.same f.1 = false
  left : ∀ r ∈ xs.flatMap newRelations, ∀ name ∈ removedNames ys, r.involves name = false
  right : ∀ r ∈ ys.flatMap newRelations, ∀ name ∈ removedNames xs, r.involves name = false

/-! ## Parts after a run -/

variable {key : String} {root root' sections : Mapping}

/-- A run writes the parts that one of its sections gives, and leaves others alone. -/
theorem SectionRun.getName?_parts (hkey : SectionKind.ofName key = .applications)
    (h : SectionRun key root sections root')
    (hsections : ∀ e ∈ sections, e.1.DistinctKeys ∧ e.2.DistinctKeys) {name : String}
    {kind : SectionKind} (hname : ListsParts key name kind) :
    ((∃ e ∈ sections, GivesParts kind e) ∧ root'.getName? name =
        some ((sectionOf root name).withEntries (applicationsUnder name root'))) ∨
      (∀ e ∈ sections, ¬ GivesParts kind e) ∧ root'.getName? name = root.getName? name := by
  induction h with
  | nil => exact .inr ⟨nofun, rfl⟩
  | @cons root mid root' e es hstep hrun ih =>
      obtain ⟨he, hes⟩ := List.forall_mem_cons.mp hsections
      rcases hstep.getName?_parts hkey he.1 hname with ⟨hgives, -, hmid⟩ | ⟨hnot, hmid⟩
      · left
        refine ⟨⟨e, by simp, hgives⟩, ?_⟩
        rcases ih hes with ⟨-, hlast⟩ | ⟨-, hlast⟩
        · rw [hlast, sectionOf_of_getName? hmid, withEntries_withEntries]
        · rw [hlast, hmid, applicationsUnder_congr hlast]
      · rcases ih hes with ⟨⟨f, hf, hgives⟩, hlast⟩ | ⟨hnone, hlast⟩
        · exact .inl ⟨⟨f, by simp [hf], hgives⟩, by rw [hlast, sectionOf_congr hmid]⟩
        · exact .inr ⟨List.forall_mem_cons.mpr ⟨hnot, hnone⟩, hlast.trans hmid⟩

/-! ## Other sections after a run -/

/-- What a section leaves under a key of another kind. -/
def otherStep (k : Value) (v? : Option Value) (e : Value × Value) : Option Value :=
  if sectionKind? e.1 = some .other ∧ k.same e.1 = true then some e.2 else v?

theorem SectionStep.get?_other {e : Value × Value} (h : SectionStep key root e root')
    (he : e.1.DistinctKeys) {k : Value} (hk : k.DistinctKeys) (hapart : StandsApart key k) :
    root'.get? k = otherStep k (root.get? k) e := by
  unfold otherStep
  by_cases hother : sectionKind? e.1 = some .other ∧ k.same e.1 = true
  · rw [if_pos hother]
    rw [h.of_other hother.1, Mapping.get?_insert root hk he, if_pos hother.2]
  · rw [if_neg hother]
    exact h.get?_eq he hk (hapart.touches_eq_false fun hkind =>
      Bool.eq_false_iff.mpr fun hsame => hother ⟨hkind, hsame⟩)

theorem SectionRun.get?_other (h : SectionRun key root sections root')
    (hsections : ∀ e ∈ sections, e.1.DistinctKeys ∧ e.2.DistinctKeys) {k : Value}
    (hk : k.DistinctKeys) (hapart : StandsApart key k) :
    root'.get? k = sections.foldl (otherStep k) (root.get? k) :=
  h.part_eq_foldl (fun m => m.get? k) fun e he _ _ hstep =>
    hstep.get?_other (hsections e he).1 hk hapart

theorem orderless_otherStep (k : Value) :
    Orderless (fun _ : Option Value => True) (fun _ : Value × Value => True) Eq (otherStep k) where
  refl _ := rfl
  trans := Eq.trans
  keeps _ _ := trivial
  congr _ _ _ h := by rw [h]

/-! ## Both orders -/

section BothOrders

variable {xs ys r s : Mapping} (hkey : SectionKind.ofName key = .applications)
  (hroot : root.DistinctKeys) (hxs : ∀ e ∈ xs, e.1.DistinctKeys ∧ e.2.DistinctKeys)
  (hys : ∀ e ∈ ys, e.1.DistinctKeys ∧ e.2.DistinctKeys) (hindep : Independent xs ys)

include hkey hroot hxs hys hindep

/-- A run over sections of two overlays goes through in the other order. -/
theorem exists_run_swapped (h : SectionRun key root (xs ++ ys) r) :
    ∃ s, SectionRun key root (ys ++ xs) s := by
  obtain ⟨mid, hfirst, hsecond⟩ := sectionRun_append_iff.mp h
  have hmid := hfirst.distinctKeys hroot hxs
  have happs := distinctKeys_applicationsUnder hroot key
  -- The second overlay finds its applications as the first one leaves them.
  obtain ⟨mid', hsecond'⟩ := hsecond.exists_of_sameMeans hkey hys hmid hroot
    (hfirst.sameMeans hkey hxs).symm fun a ha => by
      have hka := (distinctKeys_mem_newApplications hys a ha).1
      rw [hfirst.applicationsUnder_eq hkey hxs]
      refine get?_foldl_mergePart_of_same_eq_false happs (distinctKeys_mem_newApplications hxs) hka
        fun e he => ?_
      rw [Value.same_comm hka (distinctKeys_mem_newApplications hxs e he).1]
      exact hindep.applications e he a ha
  obtain ⟨s, hfirst'⟩ := hfirst.exists_of_sameMeans hkey hxs hroot
    (hsecond'.distinctKeys hroot hys) (hsecond'.sameMeans hkey hys) fun a ha => by
      rw [hsecond'.applicationsUnder_eq hkey hys]
      exact (get?_foldl_mergePart_of_same_eq_false happs (distinctKeys_mem_newApplications hys)
        (distinctKeys_mem_newApplications hxs a ha).1 fun e he =>
          hindep.applications a ha e he).symm
  exact ⟨s, sectionRun_append_iff.mpr ⟨mid', hsecond', hfirst'⟩⟩

variable (hr : SectionRun key root (xs ++ ys) r) (hs : SectionRun key root (ys ++ xs) s)

include hr hs

theorem applicationsUnder_perm :
    (applicationsUnder key r).Perm (applicationsUnder key s) := by
  have hnewxs := distinctKeys_mem_newApplications hxs
  have hnewys := distinctKeys_mem_newApplications hys
  rw [hr.applicationsUnder_eq hkey (List.forall_mem_append.mpr ⟨hxs, hys⟩),
    hs.applicationsUnder_eq hkey (List.forall_mem_append.mpr ⟨hys, hxs⟩), List.flatMap_append,
    List.foldl_append, List.flatMap_append, List.foldl_append]
  exact orderless_mergePart.foldl_comm hnewxs hnewys
    (fun e he f hf m hm => mergePart_comm hm (hnewxs e he) (hnewys f hf)
      (hindep.applications e he f hf)) (distinctKeys_applicationsUnder hroot key)

theorem machinesUnder_perm
    (honce : ∀ e ∈ (xs ++ ys).flatMap newMachines, ListedOnce (machinesUnder root) e.1) :
    (machinesUnder r).Perm (machinesUnder s) := by
  rw [List.flatMap_append, List.forall_mem_append] at honce
  obtain ⟨honcexs, honceys⟩ := honce
  -- The keys of both overlays.
  obtain ⟨keys, hkeys⟩ : ∃ keys, keys = (xs.flatMap newMachines ++ ys.flatMap newMachines).map
    Prod.fst := ⟨_, rfl⟩
  have hnewxs : ∀ e ∈ xs.flatMap newMachines,
      (e.1.DistinctKeys ∧ e.2.DistinctKeys) ∧ e.1 ∈ keys := fun e he =>
    ⟨distinctKeys_mem_newMachines hxs e he, by
      rw [hkeys]
      exact List.mem_map_of_mem (List.mem_append_left _ he)⟩
  have hnewys : ∀ e ∈ ys.flatMap newMachines,
      (e.1.DistinctKeys ∧ e.2.DistinctKeys) ∧ e.1 ∈ keys := fun e he =>
    ⟨distinctKeys_mem_newMachines hys e he, by
      rw [hkeys]
      exact List.mem_map_of_mem (List.mem_append_right _ he)⟩
  have hlisted : ∀ k ∈ keys, ListedOnce (machinesUnder root) k := by
    rw [hkeys, List.forall_mem_map]
    exact List.forall_mem_append.mpr ⟨honcexs, honceys⟩
  rw [hr.machinesUnder_eq hkey (List.forall_mem_append.mpr ⟨hxs, hys⟩),
    hs.machinesUnder_eq hkey (List.forall_mem_append.mpr ⟨hys, hxs⟩), List.flatMap_append,
    List.foldl_append, List.flatMap_append, List.foldl_append]
  exact (orderless_mergeMachine keys).foldl_comm hnewxs hnewys
    (fun e he f hf m hm => mergeMachine_comm hm.1 (hnewxs e he).1 (hnewys f hf).1
      (hm.2 e.1 (hnewxs e he).2) (hm.2 f.1 (hnewys f hf).2) (hindep.machines e he f hf))
    ⟨distinctKeys_machinesUnder hroot, hlisted⟩

omit hroot in
theorem relations_match (hlist : isTaggedList (root.getName? "relations") = false) :
    ListsMatch (r.getName? "relations") (s.getName? "relations") := by
  have hkeeps : ∀ e ∈ xs, ∀ f ∈ ys, KeepsRelations e f := by
    intro e he f hf
    constructor
    · intro r hr
      refine List.all_eq_true.mpr fun name hname => ?_
      rw [hindep.left r (List.mem_flatMap.mpr ⟨e, he, hr⟩) name
        (List.mem_flatMap.mpr ⟨f, hf, hname⟩)]
      rfl
    · intro r hr
      refine List.all_eq_true.mpr fun name hname => ?_
      rw [hindep.right r (List.mem_flatMap.mpr ⟨f, hf, hr⟩) name
        (List.mem_flatMap.mpr ⟨e, he, hname⟩)]
      rfl
  rw [hr.relations_eq hkey (List.forall_mem_append.mpr ⟨hxs, hys⟩),
    hs.relations_eq hkey (List.forall_mem_append.mpr ⟨hys, hxs⟩), List.foldl_append,
    List.foldl_append]
  exact orderless_listStep.foldl_comm (fun _ _ => trivial) (fun _ _ => trivial)
    (fun e he f hf v? hv => listStep_comm hv (hkeeps e he f hf)) hlist

omit hkey hroot in
theorem get?_other_eq {k : Value} (hk : k.DistinctKeys) (hapart : StandsApart key k) :
    r.get? k = s.get? k := by
  rw [hr.get?_other (List.forall_mem_append.mpr ⟨hxs, hys⟩) hk hapart,
    hs.get?_other (List.forall_mem_append.mpr ⟨hys, hxs⟩) hk hapart, List.foldl_append,
    List.foldl_append]
  refine (orderless_otherStep k).foldl_comm (fun _ _ => trivial) (fun _ _ => trivial)
    (fun e he f hf v? _ => ?_) trivial
  -- No key is under both sections.
  have hne : ¬ ((sectionKind? e.1 = some .other ∧ k.same e.1 = true) ∧
      sectionKind? f.1 = some .other ∧ k.same f.1 = true) := by
    rintro ⟨⟨hkind, hke⟩, -, hkf⟩
    have hef := hindep.others e he f hf hkind
    rw [Value.same_trans (Value.same_symm hk hke) hkf] at hef
    cases hef
  unfold otherStep
  by_cases he : sectionKind? e.1 = some .other ∧ k.same e.1 = true
  · have hf : ¬ (sectionKind? f.1 = some .other ∧ k.same f.1 = true) := fun hf => hne ⟨he, hf⟩
    rw [if_pos he, if_neg hf, if_pos he]
  · rw [if_neg he, if_neg he]

/-- Both orders leave matching sections. -/
theorem keyByKey_swapped (hlist : isTaggedList (root.getName? "relations") = false)
    (honce : ∀ e ∈ (xs ++ ys).flatMap newMachines, ListedOnce (machinesUnder root) e.1) :
    KeyByKey SectionsMatch r s := by
  have hparts : ∀ {name : String} {kind : SectionKind}, ListsParts key name kind →
      (applicationsUnder name r).Perm (applicationsUnder name s) →
        SectionsMatch (.string name) (r.get? (.string name)) (s.get? (.string name)) := by
    intro name kind hname hperm
    -- Both orders give the same parts.
    have hmem : ∀ e, e ∈ xs ++ ys ↔ e ∈ ys ++ xs := fun e => List.perm_append_comm.mem_iff
    change SectionsMatch _ (r.getName? name) (s.getName? name)
    rcases hr.getName?_parts hkey (List.forall_mem_append.mpr ⟨hxs, hys⟩) hname with
      ⟨⟨e, he, hgives⟩, hget⟩ | ⟨hnone, hget⟩
    · rcases hs.getName?_parts hkey (List.forall_mem_append.mpr ⟨hys, hxs⟩) hname with
        ⟨-, hget'⟩ | ⟨hnone, -⟩
      · rw [hget, hget']
        exact .entries _ _ hperm
      · exact absurd hgives (hnone e ((hmem e).mp he))
    · rcases hs.getName?_parts hkey (List.forall_mem_append.mpr ⟨hys, hxs⟩) hname with
        ⟨⟨e, he, hgives⟩, -⟩ | ⟨-, hget'⟩
      · exact absurd hgives (hnone e ((hmem e).mpr he))
      · rw [hget, hget']
        exact .same _ _
  intro k hk
  by_cases happlications : k.same (.string key) = true
  · obtain rfl := Value.same_string_right_iff.mp happlications
    exact hparts .applications (applicationsUnder_perm hkey hroot hxs hys hindep hr hs)
  by_cases hmachines : k.same (.string "machines") = true
  · obtain rfl := Value.same_string_right_iff.mp hmachines
    exact hparts .machines (machinesUnder_perm hkey hroot hxs hys hindep hr hs honce)
  by_cases hrelations : k.same (.string "relations") = true
  · obtain rfl := Value.same_string_right_iff.mp hrelations
    exact .relations rfl (relations_match hkey hxs hys hindep hr hs hlist)
  rw [get?_other_eq hxs hys hindep hr hs hk ⟨Bool.eq_false_iff.mpr happlications,
    Bool.eq_false_iff.mpr hmachines, Bool.eq_false_iff.mpr hrelations⟩]
  exact .same k _

end BothOrders

/-! ## Documents -/

theorem Independent.symm {xs ys : Mapping} (h : Independent xs ys) (hxs : xs.DistinctKeys)
    (hys : ys.DistinctKeys) : Independent ys xs where
  applications f hf e he := by
    rw [Value.same_comm (distinctKeys_mem_newApplications hys.parts f hf).1
      (distinctKeys_mem_newApplications hxs.parts e he).1]
    exact h.applications e he f hf
  machines f hf e he b hfb := Bool.eq_false_iff.mpr fun heb => by
    rw [h.machines e he f hf b heb] at hfb
    cases hfb
  others f hf e he hkind := Bool.eq_false_iff.mpr fun hfe => by
    have hef := Value.same_symm (hys.parts f hf).1 hfe
    have hkind' : sectionKind? e.1 = some .other := by
      rw [sectionKind?, text?_eq_of_same hef]
      exact hkind
    rw [h.others e he f hf hkind'] at hef
    cases hef
  left := h.right
  right := h.left

/-- Independent overlays that are accepted are accepted in the other order, with a matching
result. -/
theorem exists_apply_swapped {origin origin' : String} {base o o' d : Value}
    (hbase : base.DistinctKeys) (ho : o.DistinctKeys) (ho' : o'.DistinctKeys)
    (hindep : Independent (rootOf o) (rootOf o'))
    (hlist : isTaggedList ((rootOf base).getName? "relations") = false)
    (honce : ∀ e ∈ namedMachines o ++ namedMachines o', ListedOnce (machinesOf base) e.1)
    (h : (apply origin base o >>= fun m => apply origin' m o') = .ok d) :
    ∃ e, (apply origin' base o' >>= fun m => apply origin m o) = .ok e ∧ DocumentsMatch d e := by
  obtain ⟨m, hm, hd⟩ := bind_eq_ok_iff.mp h
  cases o with
  | null =>
      cases hm
      exact ⟨d, bind_eq_ok_iff.mpr ⟨d, hd, rfl⟩, .inl rfl⟩
  | mapping xs =>
      cases o' with
      | null =>
          cases hd
          exact ⟨d, bind_eq_ok_iff.mpr ⟨base, rfl, hm⟩, .inl rfl⟩
      | mapping ys =>
          have hxs := Value.distinctKeys_mapping_iff.mp ho
          have hys := Value.distinctKeys_mapping_iff.mp ho'
          obtain ⟨root, mid, hroot, hfirst, rfl⟩ := (apply_mapping_eq_ok_iff hbase hxs).mp hm
          have hdistinct := distinctKeys_of_entries? hbase hroot
          have hmid := hfirst.distinctKeys hdistinct hxs.parts
          obtain ⟨_, r, hroot', hsecond, rfl⟩ :=
            (apply_mapping_eq_ok_iff (distinctKeys_withEntries hmid) hys).mp hd
          obtain rfl := Option.some.inj ((entries?_withEntries base mid).symm.trans hroot')
          rw [hfirst.applicationKey_eq rfl hxs.parts] at hsecond
          have hkey := ofName_applicationKey root
          have hrun := sectionRun_append_iff.mpr ⟨_, hfirst, hsecond⟩
          obtain ⟨s, hrun'⟩ :=
            exists_run_swapped hkey hdistinct hxs.parts hys.parts hindep hrun
          obtain ⟨mid', hfirst', hsecond'⟩ := sectionRun_append_iff.mp hrun'
          have hrootOf : rootOf base = root := by
            rw [rootOf, hroot]
            rfl
          have honce' : ∀ e ∈ (xs ++ ys).flatMap newMachines,
              ListedOnce (machinesUnder root) e.1 := by
            rw [List.flatMap_append, ← hrootOf]
            exact honce
          rw [hrootOf] at hlist
          have hmatch := keyByKey_swapped hkey hdistinct hxs.parts hys.parts hindep hrun hrun'
            hlist honce'
          have hmid' := hfirst'.distinctKeys hdistinct hys.parts
          refine ⟨base.withEntries s, bind_eq_ok_iff.mpr ⟨base.withEntries mid', ?_, ?_⟩,
            .inr ⟨base, r, s, withEntries_withEntries base _ r, rfl, hmatch⟩⟩
          · exact (apply_mapping_eq_ok_iff hbase hys).mpr ⟨root, mid', hroot, hfirst', rfl⟩
          · refine (apply_mapping_eq_ok_iff (distinctKeys_withEntries hmid') hxs).mpr
              ⟨mid', s, entries?_withEntries base mid', ?_, (withEntries_withEntries base _ s).symm⟩
            rwa [hfirst'.applicationKey_eq rfl hys.parts]
      | _ => cases hd
  | _ => cases hm

/-- Independent overlays are accepted in both orders or in neither, and both orders give matching
documents. -/
theorem apply_comm {origin origin' : String} {base o o' : Value} (hbase : base.DistinctKeys)
    (ho : o.DistinctKeys) (ho' : o'.DistinctKeys) (hindep : Independent (rootOf o) (rootOf o'))
    (hlist : isTaggedList ((rootOf base).getName? "relations") = false)
    (honce : ∀ e ∈ namedMachines o ++ namedMachines o', ListedOnce (machinesOf base) e.1) :
    ((∃ d, (apply origin base o >>= fun m => apply origin' m o') = .ok d) ↔
      ∃ e, (apply origin' base o' >>= fun m => apply origin m o) = .ok e) ∧
    ∀ d e, (apply origin base o >>= fun m => apply origin' m o') = .ok d →
      (apply origin' base o' >>= fun m => apply origin m o) = .ok e → DocumentsMatch d e := by
  have hindep' := hindep.symm (distinctKeys_rootOf ho) (distinctKeys_rootOf ho')
  have honce' : ∀ e ∈ namedMachines o' ++ namedMachines o, ListedOnce (machinesOf base) e.1 :=
    fun e he => honce e (List.perm_append_comm.mem_iff.mp he)
  refine ⟨⟨?_, ?_⟩, ?_⟩
  · rintro ⟨d, hd⟩
    obtain ⟨e, he, -⟩ := exists_apply_swapped hbase ho ho' hindep hlist honce hd
    exact ⟨e, he⟩
  · rintro ⟨e, he⟩
    obtain ⟨d, hd, -⟩ := exists_apply_swapped hbase ho' ho hindep' hlist honce' he
    exact ⟨d, hd⟩
  · intro d e hd he
    obtain ⟨e', he', hmatch⟩ := exists_apply_swapped hbase ho ho' hindep hlist honce hd
    rw [he] at he'
    cases he'
    exact hmatch

/-! ### Two overlays -/

def pairedDocument : Value :=
  .mapping
    [(.string "applications", .mapping
      [(.string "a", .mapping [(.string "charm", .string "x")]),
        (.string "b", .mapping [(.string "charm", .string "y")])]),
      (.string "machines", .mapping [(.string "0", .mapping [])]),
      (.string "relations", .sequence [.sequence [.string "a:one", .string "b:one"]])]

/-- Removes an application and gives another one a relation. -/
def removingOverlay : Value :=
  .mapping
    [(.string "applications", .mapping [(.string "b", .null)]),
      (.string "relations", .sequence [.sequence [.string "a:two", .string "c:two"]]),
      (.string "machines", .mapping
        [(.number (.int 0), .mapping [(.string "series", .string "focal")])])]

/-- Brings an application with the same relation, written the other way round, and a machine. -/
def bringingOverlay : Value :=
  .mapping
    [(.string "relations", .sequence [.sequence [.string "c:two ", .string "a:two"]]),
      (.string "series", .string "jammy"),
      (.string "machines", .mapping [(.number (.int 1), .mapping [])]),
      (.string "services", .mapping
        [(.string "c", .mapping [(.string "charm", .string "z")])])]

/-- Keys of machines that are no floating-point zeros are told apart by their names. -/
theorem forall_namesApart {ms ns : Mapping} (h : ∀ e ∈ ms, ∀ f ∈ ns, f.1.DistinctKeys ∧
    isZeroKey e.1 = false ∧ isZeroKey f.1 = false ∧ nameSame e.1 f.1 = false) :
    ∀ e ∈ ms, ∀ f ∈ ns, NamesApart e.1 f.1 := by
  intro e he f hf
  obtain ⟨hdistinct, hezero, hfzero, hne⟩ := h e he f hf
  exact namesApart_of_nameSame hdistinct hezero hfzero hne

theorem independent_removingOverlay :
    Independent (rootOf removingOverlay) (rootOf bringingOverlay) where
  applications := by decide +kernel
  machines := forall_namesApart (by decide +kernel)
  others := by decide +kernel
  left := by decide +kernel
  right := by decide +kernel

theorem apply_comm_removingOverlay :
    ∃ d e, (apply "first" pairedDocument removingOverlay >>= fun m =>
        apply "second" m bringingOverlay) = .ok d ∧
      (apply "second" pairedDocument bringingOverlay >>= fun m =>
        apply "first" m removingOverlay) = .ok e ∧ DocumentsMatch d e := by
  have honce : ∀ e ∈ namedMachines removingOverlay ++ namedMachines bringingOverlay,
      ListedOnce (machinesOf pairedDocument) e.1 := by
    unfold ListedOnce
    decide +kernel
  have hcomm := @apply_comm "first" "second" pairedDocument removingOverlay bringingOverlay
    (by decide +kernel) (by decide +kernel) (by decide +kernel) independent_removingOverlay
    (by decide +kernel) honce
  obtain ⟨d, hd⟩ : ∃ d, (apply "first" pairedDocument removingOverlay >>= fun m =>
      apply "second" m bringingOverlay) = .ok d := ⟨.mapping
    [(.string "applications", .mapping
      [(.string "a", .mapping [(.string "charm", .string "x")]),
        (.string "c", .mapping [(.string "charm", .string "z")])]),
      (.string "machines", .mapping
        [(.string "0", .mapping [(.string "series", .string "focal")]),
          (.number (.int 1), .mapping [])]),
      (.string "relations", .sequence [.sequence [.string "a:two", .string "c:two"]]),
      (.string "series", .string "jammy")], by decide +kernel⟩
  obtain ⟨e, he⟩ := hcomm.1.mp ⟨d, hd⟩
  exact ⟨d, e, hd, he, hcomm.2 d e hd he⟩

/-! ### Overlays that do not commute -/

/-- Documents that match list the same machines. -/
theorem DocumentsMatch.mem_machinesOf_iff {d e : Value} (h : DocumentsMatch d e)
    (b : Value × Value) : b ∈ machinesOf d ↔ b ∈ machinesOf e := by
  rcases h with rfl | ⟨v, m, n, rfl, rfl, hmatch⟩
  · rfl
  · have hmachines : SectionsMatch (.string "machines") (m.getName? "machines")
        (n.getName? "machines") := hmatch _ (Value.distinctKeys_string _)
    rw [machinesOf, machinesOf, rootOf_withEntries, rootOf_withEntries]
    generalize hm : m.getName? "machines" = v? at hmachines
    generalize hn : n.getName? "machines" = w? at hmachines
    cases hmachines with
    | same => rw [sectionOf_congr (hm.trans hn.symm)]
    | entries u hperm =>
        rw [sectionOf_of_getName? hm, sectionOf_of_getName? hn, entries?_withEntries,
          entries?_withEntries]
        exact hperm.mem_iff
    | relations hk => exact absurd hk (by decide)

theorem listed_withEntries (v : Value) (es : Mapping) : listed (some (v.withEntries es)) = [] := by
  have huntagged : (v.withEntries es).untagged = .mapping es := by
    induction v using Value.treeInduction with
    | tagged tag w ih => exact ih
    | _ => rfl
  rw [listed, relationItems, Option.map_some, huntagged]
  rfl

/-- Documents that match list equally many relations. -/
theorem DocumentsMatch.length_relationsOf {d e : Value} (h : DocumentsMatch d e) :
    (relationsOf d).length = (relationsOf e).length := by
  rcases h with rfl | ⟨v, m, n, rfl, rfl, hmatch⟩
  · rfl
  · have hrelations : SectionsMatch (.string "relations") (m.getName? "relations")
        (n.getName? "relations") := hmatch _ (Value.distinctKeys_string _)
    rw [relationsOf, relationsOf, rootOf_withEntries, rootOf_withEntries]
    generalize m.getName? "relations" = v? at hrelations ⊢
    generalize n.getName? "relations" = w? at hrelations ⊢
    cases hrelations with
    | same => rfl
    | entries => rw [listed_withEntries, listed_withEntries]
    | relations _ hlists => simpa using hlists.listed.length_eq

def machineUnderTwoKeys : Value :=
  .mapping [(.string "machines", .mapping
    [(.string "5", .mapping []), (.number (.int 0), .mapping []), (.string "0", .mapping [])])]

def dropFifth : Value :=
  .mapping [(.string "machines", .mapping [(.string "5", .null)])]

def dropZeroth : Value :=
  .mapping [(.string "machines", .mapping [(.number (.int 0), .null)])]

def machineUnderZero : Value :=
  .mapping [(.string "machines", .mapping [(.number (.float (.zero false)), .mapping [])])]

def dropZeroText : Value :=
  .mapping [(.string "machines", .mapping [(.string "0.0", .null)])]

def mergeNegativeZero : Value :=
  .mapping [(.string "machines", .mapping [(.number (.float (.zero true)), .mapping [])])]

def taggedListDocument : Value :=
  .mapping
    [(.string "applications", .mapping
      [(.string "a", .mapping [(.string "charm", .string "x")]),
        (.string "b", .mapping [(.string "charm", .string "y")])]),
      (.string "relations", .tagged "!list"
        (.sequence [.sequence [.string "a:one", .string "b:one"]]))]

def dropApplication : Value :=
  .mapping [(.string "applications", .mapping [(.string "a", .null)])]

def listNothing : Value :=
  .mapping [(.string "relations", .sequence [])]

/-- Which of two machines of one name is left depends on the order of overlays that remove others;
a list of relations below a tag keeps those of an application that is removed first; and a floating
point zero is the key of a machine that the text of another zero names. -/
theorem apply_comm_differs :
    (Independent (rootOf dropFifth) (rootOf dropZeroth) ∧ ∃ d e,
      (apply "first" machineUnderTwoKeys dropFifth >>= fun m => apply "second" m dropZeroth) =
        .ok d ∧
      (apply "second" machineUnderTwoKeys dropZeroth >>= fun m => apply "first" m dropFifth) =
        .ok e ∧ ¬ DocumentsMatch d e) ∧
    (Independent (rootOf dropApplication) (rootOf listNothing) ∧ ∃ d e,
      (apply "first" taggedListDocument dropApplication >>= fun m =>
        apply "second" m listNothing) = .ok d ∧
      (apply "second" taggedListDocument listNothing >>= fun m =>
        apply "first" m dropApplication) = .ok e ∧ ¬ DocumentsMatch d e) ∧
    ((∀ a ∈ namedMachines dropZeroText, ∀ b ∈ namedMachines mergeNegativeZero,
        sameMachine a.1 b.1 = false ∧ a.1.same b.1 = false) ∧ ∃ d e,
      (apply "first" machineUnderZero dropZeroText >>= fun m =>
        apply "second" m mergeNegativeZero) = .ok d ∧
      (apply "second" machineUnderZero mergeNegativeZero >>= fun m =>
        apply "first" m dropZeroText) = .ok e ∧ ¬ DocumentsMatch d e) := by
  have hmachines : ∀ {d e : Value} (b : Value × Value),
      ¬ (b ∈ machinesOf d ↔ b ∈ machinesOf e) → ¬ DocumentsMatch d e :=
    fun b hne hmatch => hne (hmatch.mem_machinesOf_iff b)
  refine ⟨⟨?_, .mapping [(.string "machines", .mapping [(.number (.int 0), .mapping [])])],
      .mapping [(.string "machines", .mapping [(.string "0", .mapping [])])], ?_, ?_, ?_⟩,
    ⟨?_, .mapping
        [(.string "applications", .mapping
          [(.string "b", .mapping [(.string "charm", .string "y")])]),
          (.string "relations", .sequence [.sequence [.string "a:one", .string "b:one"]])],
      .mapping
        [(.string "applications", .mapping
          [(.string "b", .mapping [(.string "charm", .string "y")])]),
          (.string "relations", .sequence [])], ?_, ?_, ?_⟩,
    ⟨?_, .mapping [(.string "machines", .mapping
        [(.number (.float (.zero true)), .mapping [])])],
      .mapping [(.string "machines", .mapping [])], ?_, ?_, ?_⟩⟩
  · exact ⟨by decide +kernel, forall_namesApart (by decide +kernel), by decide +kernel,
      by decide +kernel, by decide +kernel⟩
  · decide +kernel
  · decide +kernel
  · exact hmachines (.string "0", .mapping []) (by decide +kernel)
  · exact ⟨by decide +kernel, forall_namesApart (by decide +kernel), by decide +kernel,
      by decide +kernel, by decide +kernel⟩
  · decide +kernel
  · decide +kernel
  · exact fun hmatch => absurd hmatch.length_relationsOf (by decide +kernel)
  · decide +kernel
  · decide +kernel
  · decide +kernel
  · exact hmachines (.number (.float (.zero true)), .mapping []) (by decide +kernel)

end BundleCheck.Overlay
