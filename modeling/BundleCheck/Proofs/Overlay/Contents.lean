import BundleCheck.Proofs.Overlay.Naming
import BundleCheck.Proofs.Overlay.Places

/-! # What a run leaves in a document

The applications and the machines of a document after a run are those that were there, with all
entries of the overlay's sections merged into them in order. The list of relations is what is kept
of the one that was there, followed by relations of the overlay. -/

namespace BundleCheck.Overlay

open Yaml

/-! ## Applications -/

variable {key : String} {root root' sections : Mapping}

/-- A run merges all applications that its sections give. -/
theorem SectionRun.applicationsUnder_eq (hkey : SectionKind.ofName key = .applications)
    (h : SectionRun key root sections root')
    (hsections : ∀ e ∈ sections, e.1.DistinctKeys ∧ e.2.DistinctKeys) :
    applicationsUnder key root' =
      (sections.flatMap newApplications).foldl mergePart (applicationsUnder key root) := by
  rw [List.foldl_flatMap]
  exact h.part_eq_foldl (applicationsUnder key) fun e he _ _ hstep =>
    hstep.applicationsUnder_eq (hsections e he).1 hkey

theorem distinctKeys_mem_newApplications
    (hsections : ∀ e ∈ sections, e.1.DistinctKeys ∧ e.2.DistinctKeys) :
    ∀ e ∈ sections.flatMap newApplications, e.1.DistinctKeys ∧ e.2.DistinctKeys := by
  intro f hf
  obtain ⟨e, he, hf⟩ := List.mem_flatMap.mp hf
  exact (distinctKeys_newApplications (hsections e he).2).parts f hf

/-- Parts that are not given stay as they are. -/
theorem get?_foldl_mergePart_of_same_eq_false {m new : Mapping} (hm : m.DistinctKeys)
    (hnew : ∀ e ∈ new, e.1.DistinctKeys ∧ e.2.DistinctKeys) {k : Value} (hk : k.DistinctKeys)
    (hne : ∀ e ∈ new, k.same e.1 = false) : Mapping.get? (new.foldl mergePart m) k = m.get? k := by
  induction new generalizing m with
  | nil => rfl
  | cons e es ih =>
      obtain ⟨he, hes⟩ := List.forall_mem_cons.mp hnew
      obtain ⟨hnee, hnees⟩ := List.forall_mem_cons.mp hne
      rw [List.foldl_cons, ih (keyLocal_mergePart.distinctKeys hm he) hes hnees,
        keyLocal_mergePart.get? hm he hk, hnee, if_neg Bool.false_ne_true]

/-- What a merge leaves under a key depends on what was there. -/
theorem get?_foldl_mergePart_congr {m n new : Mapping} (hm : m.DistinctKeys) (hn : n.DistinctKeys)
    (hnew : ∀ e ∈ new, e.1.DistinctKeys ∧ e.2.DistinctKeys) {k : Value} (hk : k.DistinctKeys)
    (h : m.get? k = n.get? k) :
    Mapping.get? (new.foldl mergePart m) k = Mapping.get? (new.foldl mergePart n) k := by
  induction new generalizing m n with
  | nil => exact h
  | cons e es ih =>
      obtain ⟨he, hes⟩ := List.forall_mem_cons.mp hnew
      refine ih (keyLocal_mergePart.distinctKeys hm he) (keyLocal_mergePart.distinctKeys hn he)
        hes ?_
      rw [keyLocal_mergePart.get? hm he hk, keyLocal_mergePart.get? hn he hk, h]

/-! ## Machines -/

def newMachines (e : Value × Value) : Mapping :=
  match sectionKind? e.1, e.2 with
  | some .machines, .mapping new => new
  | _, _ => []

def machinesUnder (root : Mapping) : Mapping :=
  ((sectionOf root "machines").entries?).getD []

theorem distinctKeys_machinesUnder (hroot : root.DistinctKeys) :
    (machinesUnder root).DistinctKeys :=
  distinctKeys_applicationsUnder hroot "machines"

theorem newMachines_eq_nil {e : Value × Value} (h : sectionKind? e.1 ≠ some .machines) :
    newMachines e = [] := by
  unfold newMachines
  split
  next hkind _ => exact absurd hkind h
  · rfl

theorem newMachines_eq_nil_of_null {e : Value × Value} (h : e.2 = .null) :
    newMachines e = [] := by
  unfold newMachines
  split
  next hvalue =>
    rw [h] at hvalue
    cases hvalue
  · rfl

theorem newMachines_of_mapping {e : Value × Value} {new : Mapping}
    (hkind : sectionKind? e.1 = some .machines) (hvalue : e.2 = .mapping new) :
    newMachines e = new := by
  simp only [newMachines, hkind, hvalue]

/-- The machines are touched by their own sections only. -/
theorem touches_machines_eq_false (hkey : SectionKind.ofName key = .applications) {k : Value}
    (hk : sectionKind? k ≠ some .machines) : touches key k (.string "machines") = false := by
  rw [Bool.eq_false_iff]
  intro h
  rcases sectionKind?_of_touches hkey h with hkind | ⟨-, hname⟩
  · exact hk hkind
  · exact absurd hname (by decide)

/-- The key is none of those under which sections are merged. -/
structure StandsApart (key : String) (k : Value) : Prop where
  applications : k.same (.string key) = false
  machines : k.same (.string "machines") = false
  relations : k.same (.string "relations") = false

/-- What stands apart is touched by sections under its own key only. -/
theorem StandsApart.touches_eq_false {key : String} {k j : Value} (h : StandsApart key j)
    (hother : sectionKind? k = some .other → j.same k = false) : touches key k j = false := by
  unfold touches
  split
  · rw [h.applications, h.relations, Bool.or_false]
  · exact h.machines
  · exact h.relations
  next hkind => exact hother hkind
  · rfl

theorem SectionStep.machinesUnder_eq {e : Value × Value} (h : SectionStep key root e root')
    (he : e.1.DistinctKeys) (hkey : SectionKind.ofName key = .applications) :
    machinesUnder root' = (newMachines e).foldl mergeMachine (machinesUnder root) := by
  by_cases hkind : sectionKind? e.1 = some .machines
  · rcases h.of_machines hkind with ⟨hnull, rfl⟩ | ⟨new, existing, hvalue, hentries, rfl⟩
    · rw [newMachines_eq_nil_of_null hnull]
      rfl
    · have hget : (root.insert (.string "machines") ((sectionOf root "machines").withEntries
          (new.foldl mergeMachine existing))).getName? "machines" =
            some ((sectionOf root "machines").withEntries (new.foldl mergeMachine existing)) :=
        root.get?_insert_self (Value.distinctKeys_string _) _
      rw [machinesUnder, sectionOf_of_getName? hget, entries?_withEntries, machinesUnder,
        hentries, newMachines_of_mapping hkind hvalue]
      rfl
  · have hget : root'.getName? "machines" = root.getName? "machines" :=
      h.get?_eq he (Value.distinctKeys_string _) (touches_machines_eq_false hkey hkind)
    rw [newMachines_eq_nil hkind, machinesUnder, sectionOf_congr hget]
    rfl

/-- A run merges all machines that its sections give. -/
theorem SectionRun.machinesUnder_eq (hkey : SectionKind.ofName key = .applications)
    (h : SectionRun key root sections root')
    (hsections : ∀ e ∈ sections, e.1.DistinctKeys ∧ e.2.DistinctKeys) :
    machinesUnder root' =
      (sections.flatMap newMachines).foldl mergeMachine (machinesUnder root) := by
  rw [List.foldl_flatMap]
  exact h.part_eq_foldl machinesUnder fun e he _ _ hstep =>
    hstep.machinesUnder_eq (hsections e he).1 hkey

theorem distinctKeys_mem_newMachines
    (hsections : ∀ e ∈ sections, e.1.DistinctKeys ∧ e.2.DistinctKeys) :
    ∀ e ∈ sections.flatMap newMachines, e.1.DistinctKeys ∧ e.2.DistinctKeys := by
  intro f hf
  obtain ⟨e, he, hf⟩ := List.mem_flatMap.mp hf
  unfold newMachines at hf
  split at hf
  next hvalue =>
    have hnew := (hsections e he).2
    rw [hvalue] at hnew
    exact (Value.distinctKeys_mapping_iff.mp hnew).parts f hf
  · cases hf

/-! ## Fields -/

def fieldsGiven (p : Value → Bool) (new : Mapping) : List Mapping :=
  (new.filter fun e => p e.1).map fun e => fieldsOf (some e.2)

theorem forall_mem_fieldsGiven {p : Value → Bool} {new : Mapping} {P : Mapping → Prop} :
    (∀ given ∈ fieldsGiven p new, P given) ↔
      ∀ e ∈ new, p e.1 = true → P (fieldsOf (some e.2)) := by
  simp only [fieldsGiven, List.forall_mem_map, List.mem_filter, and_imp]

theorem distinctKeys_fieldsOf_entry {e : Value × Value} (he : e.1.DistinctKeys ∧ e.2.DistinctKeys) :
    (fieldsOf (some e.2)).DistinctKeys :=
  distinctKeys_fieldsOf fun _ h => Option.some.inj h ▸ he.2

theorem fieldsGiven_cons_mapping {p : Value → Bool} {k : Value} (h : p k = true)
    (given new : Mapping) :
    fieldsGiven p ((k, .mapping given) :: new) = given :: fieldsGiven p new := by
  rw [fieldsGiven, List.filter_cons, if_pos h, List.map_cons]
  rfl

theorem fieldsGiven_cons_of_not {p : Value → Bool} {e : Value × Value} (h : ¬ p e.1 = true)
    (new : Mapping) : fieldsGiven p (e :: new) = fieldsGiven p new := by
  rw [fieldsGiven, fieldsGiven, List.filter_cons, if_neg h]

/-- A part to which only fields are given has them merged in order. -/
theorem get?_foldl_mergePart_mapping {m new : Mapping} (hm : m.DistinctKeys)
    (hnew : ∀ e ∈ new, e.1.DistinctKeys ∧ e.2.DistinctKeys) {k : Value} (hk : k.DistinctKeys)
    {fields : Mapping} (hget : m.get? k = some (.mapping fields))
    (hgiven : ∀ e ∈ new, k.same e.1 = true → ∃ given, e.2 = .mapping given) :
    Mapping.get? (new.foldl mergePart m) k =
      some (.mapping ((fieldsGiven k.same new).foldl mergeFields fields)) := by
  induction new generalizing m fields with
  | nil => exact hget
  | cons e es ih =>
      obtain ⟨he, hes⟩ := List.forall_mem_cons.mp hnew
      obtain ⟨hgivene, hgivenes⟩ := List.forall_mem_cons.mp hgiven
      have hstep := keyLocal_mergePart.get? hm he hk
      obtain ⟨l, v⟩ := e
      by_cases hke : k.same l = true
      · obtain ⟨given, rfl⟩ := hgivene hke
        rw [if_pos hke, hget] at hstep
        rw [List.foldl_cons, ih (keyLocal_mergePart.distinctKeys hm he) hes hstep hgivenes,
          fieldsGiven_cons_mapping hke]
        rfl
      · rw [if_neg hke, hget] at hstep
        rw [List.foldl_cons, ih (keyLocal_mergePart.distinctKeys hm he) hes hstep hgivenes,
          fieldsGiven_cons_of_not hke]

/-- A machine to which only fields are given has some of them merged in order: those of the keys
that do not find another machine of the same name, and so all of them if there is no such one. -/
theorem mem_foldl_mergeMachine_mapping {m new : Mapping} (hm : m.DistinctKeys)
    (hnew : ∀ e ∈ new, e.1.DistinctKeys ∧ e.2.DistinctKeys) {k : Value} {fields : Mapping}
    (hmem : (k, .mapping fields) ∈ m)
    (hgiven : ∀ e ∈ new, names e.1 k = true → ∃ given, e.2 = .mapping given) :
    ∃ given : List Mapping, given.Sublist (fieldsGiven (names · k) new) ∧
      (ListedOnce m k → isZeroKey k = false → given = fieldsGiven (names · k) new) ∧
      (k, .mapping (given.foldl mergeFields fields)) ∈ new.foldl mergeMachine m := by
  induction new generalizing m fields with
  | nil => exact ⟨[], .slnil, fun _ _ => rfl, hmem⟩
  | cons e es ih =>
      obtain ⟨he, hes⟩ := List.forall_mem_cons.mp hnew
      obtain ⟨hgivene, hgivenes⟩ := List.forall_mem_cons.mp hgiven
      have hm' := distinctKeys_mergeMachine hm he
      have hkey := distinctKeys_machineKey hm he.1
      by_cases hfound : (machineKey m e.1).same k = true
      · have hnames : names e.1 k = true := names_of_same_machineKey hm hmem hfound
        obtain ⟨new, hvalue⟩ := hgivene hnames
        have hget : m.get? (machineKey m e.1) = some (.mapping fields) :=
          (Mapping.get?_eq_some_iff hm hkey).mpr ⟨_, hmem, hfound, rfl⟩
        have hmerged : (k, .mapping (mergeFields fields new)) ∈ mergeMachine m e := by
          rw [mem_mergeMachine_iff_part hm he]
          refine .inr ⟨.mapping (mergeFields fields new), ?_, ?_⟩
          · dsimp only
            rw [hget, hvalue]
            rfl
          · rw [Mapping.storedKey_of_mem hm hkey hmem hfound]
        obtain ⟨given, hsublist, hall, hresult⟩ := ih hm' hes hmerged hgivenes
        obtain ⟨l, v⟩ := e
        obtain rfl : v = .mapping new := hvalue
        rw [fieldsGiven_cons_mapping (p := (names · k)) hnames]
        refine ⟨new :: given, hsublist.cons_cons new, fun honce hzero => ?_, hresult⟩
        rw [hall (honce.mergeMachine hm he) hzero]
      · have hkept : (k, .mapping fields) ∈ mergeMachine m e :=
          (mem_mergeMachine_iff_part hm he).mpr (.inl ⟨hmem, Bool.eq_false_iff.mpr hfound⟩)
        obtain ⟨given, hsublist, hall, hresult⟩ := ih hm' hes hkept hgivenes
        refine ⟨given, hsublist.trans (List.Sublist.map _ ?_), fun honce hzero => ?_, hresult⟩
        · exact (List.sublist_cons_self e es).filter _
        · have hunnamed : ¬ names e.1 k = true := fun hnames =>
            hfound (honce.same_machineKey (b := (k, .mapping fields)) hmem he.1 hzero hnames)
          rw [hall (honce.mergeMachine hm he) hzero,
            fieldsGiven_cons_of_not (p := (names · k)) hunnamed]

/-! ## Relations -/

theorem eq_string_of_text {expected name : String} {v : Value} (hv : v.isUntagged = true)
    (h : Source.text expected v = Except.ok (ε := Mismatch) name) : v = .string name := by
  cases v with
  | string s =>
      cases h
      rfl
  | tagged tag w => cases hv
  | _ => cases h

/-- A relation without tags is written as it is read. -/
theorem encode_of_read {item : Value} {r : Relation} (hitem : item.isUntagged = true)
    (h : Relation.read item = Except.ok (ε := Mismatch) r) : r.encode = item := by
  rw [Relation.read, bind_eq_ok_iff] at h
  obtain ⟨parts, hparts, h⟩ := h
  cases item with
  | sequence items =>
      obtain rfl : items = parts := Except.ok.inj hparts
      rw [Value.isUntagged_sequence_iff] at hitem
      match items, hitem, h with
      | [left], _, h =>
          obtain ⟨_, -, h⟩ := bind_eq_ok_iff.mp h
          cases h
      | left :: right :: rest, hitem, h =>
          obtain ⟨l, hl, h⟩ := bind_eq_ok_iff.mp h
          obtain ⟨s, hs, h⟩ := bind_eq_ok_iff.mp h
          obtain ⟨_, hrest, h⟩ := bind_eq_ok_iff.mp h
          cases h
          rw [eq_string_of_text (hitem left (by simp)) hl,
            eq_string_of_text (hitem right (by simp)) hs]
          cases rest with
          | nil => rfl
          | cons extra rest => cases hrest
  | tagged tag w => cases hitem
  | null =>
      cases hparts
      cases h
  | _ => cases hparts

theorem map_encode_of_mapM {items : List Value} {rs : List Relation}
    (hitems : ∀ item ∈ items, item.isUntagged = true)
    (h : items.mapM (Relation.read : Value → Except Mismatch Relation) = .ok rs) :
    rs.map Relation.encode = items := by
  induction items generalizing rs with
  | nil =>
      cases h
      rfl
  | cons item items ih =>
      obtain ⟨hitem, hitems⟩ := List.forall_mem_cons.mp hitems
      rw [List.mapM_cons, bind_eq_ok_iff] at h
      obtain ⟨r, hr, h⟩ := h
      obtain ⟨rest, hrest, h⟩ := bind_eq_ok_iff.mp h
      cases h
      rw [List.map_cons, encode_of_read hitem hr, ih hitems hrest]

/-- The list of relations stands below no tag, and neither do its items. -/
def UntaggedList (v? : Option Value) : Prop :=
  isTaggedList v? = false ∧ ∀ item ∈ relationItems v?, item.isUntagged = true

theorem untaggedList_of_isUntagged {v? : Option Value}
    (h : ∀ v, v? = some v → v.isUntagged = true) : UntaggedList v? := by
  refine ⟨isTaggedList_eq_false h, fun item hitem => ?_⟩
  cases v? with
  | none => cases hitem
  | some v =>
      cases v with
      | sequence items => exact Value.isUntagged_sequence_iff.mp (h _ rfl) item hitem
      | tagged tag w => cases h _ rfl
      | _ => cases hitem

theorem relationItems_encode (rs : List Relation) :
    relationItems (some (.sequence (rs.map Relation.encode))) = rs.map Relation.encode :=
  rfl

theorem untaggedList_encode (rs : List Relation) :
    UntaggedList (some (.sequence (rs.map Relation.encode))) := by
  refine ⟨rfl, fun item hitem => ?_⟩
  rw [relationItems_encode] at hitem
  obtain ⟨r, -, rfl⟩ := List.mem_map.mp hitem
  rfl

/-- A list that is read is written as it was. -/
theorem relationItems_of_readRelations {v? : Option Value} {rs : List Relation}
    (hv : UntaggedList v?) (h : readRelations (v?.getD .null) = Except.ok (ε := Mismatch) rs) :
    relationItems v? = rs.map Relation.encode := by
  rw [readRelations, bind_eq_ok_iff] at h
  obtain ⟨items, hitems, h⟩ := h
  have hlist : relationItems v? = items := by
    cases v? with
    | none =>
        cases hitems
        rfl
    | some v =>
        rw [Option.getD_some, items_eq_ok_iff] at hitems
        rw [relationItems, Option.map_some]
        rcases hitems with hv | ⟨hv, rfl⟩ <;> rw [hv]
  rw [hlist, map_encode_of_mapM (fun item hitem => hv.2 item (hlist ▸ hitem)) h]

/-- The item is a relation of none of the applications, or no relation. -/
def keptItem (names : List String) (item : Value) : Bool :=
  names.all fun name => !isRelationOf name item

theorem keptItem_append (names names' : List String) (item : Value) :
    keptItem (names ++ names') item = (keptItem names item && keptItem names' item) :=
  List.all_append

theorem filter_keptItem_encode (names : List String) (rs : List Relation) :
    (rs.map Relation.encode).filter (keptItem names) =
      (rs.filter (keptWithout names)).map Relation.encode :=
  List.filter_map

theorem relationItems_withoutRelationsOf (names : List String) {v? : Option Value}
    (h : isTaggedList v? = false) :
    relationItems (withoutRelationsOf names v?) = (relationItems v?).filter (keptItem names) := by
  cases v? with
  | none => rfl
  | some v =>
      cases v with
      | tagged tag w => cases h
      | _ => rfl

theorem UntaggedList.withoutRelationsOf {v? : Option Value} (h : UntaggedList v?)
    (names : List String) : UntaggedList (Overlay.withoutRelationsOf names v?) := by
  refine ⟨(isTaggedList_withoutRelationsOf names v?).trans h.1, fun item hitem => ?_⟩
  rw [relationItems_withoutRelationsOf names h.1] at hitem
  exact h.2 item (List.mem_of_mem_filter hitem)

/-- A run keeps the relations of the applications that it does not remove, as they were written and
in their order, ahead of those that it adds. -/
theorem SectionRun.relationItems_eq (hkey : SectionKind.ofName key = .applications)
    (h : SectionRun key root sections root')
    (hsections : ∀ e ∈ sections, e.1.DistinctKeys ∧ e.2.DistinctKeys)
    (hlist : UntaggedList (root.getName? "relations")) :
    ∃ fresh : List Relation, (∀ r ∈ fresh, r ∈ sections.flatMap newRelations) ∧
      relationItems (root'.getName? "relations") =
        (relationItems (root.getName? "relations")).filter (keptItem (removedNames sections)) ++
          fresh.map Relation.encode := by
  induction h with
  | nil root =>
      refine ⟨[], nofun, ?_⟩
      rw [List.map_nil, List.append_nil]
      exact (List.filter_eq_self.mpr fun _ _ => rfl).symm
  | @cons root mid root' e es hstep hrun ih =>
      obtain ⟨he, hes⟩ := List.forall_mem_cons.mp hsections
      rcases hstep.relations_cases he.1 hkey with ⟨-, -, hmid⟩ | ⟨hwrites, hnone, hmid⟩
      · obtain ⟨fresh, hfresh, hitems⟩ := ih hes (by rw [hmid]; exact hlist.withoutRelationsOf _)
        refine ⟨fresh, fun r hr => ?_, ?_⟩
        · exact List.mem_append_right (newRelations e) (hfresh r hr)
        · rw [hitems, hmid, relationItems_withoutRelationsOf _ hlist.1, List.filter_filter]
          refine congrArg (· ++ fresh.map Relation.encode) (List.filter_congr fun item _ => ?_)
          rw [Bool.and_comm]
          exact (keptItem_append _ _ item).symm
      · obtain ⟨fresh, hfresh, hitems⟩ := ih hes (by rw [hmid]; exact untaggedList_encode _)
        -- What the section adds, some of which later sections may remove.
        obtain ⟨new, hnew⟩ : ∃ new, new = ((newRelations e).foldl addRelation []).filter fun r =>
          !hasRelation (listed (root.getName? "relations")) r := ⟨_, rfl⟩
        refine ⟨new.filter (keptWithout (removedNames es)) ++ fresh, fun r hr => ?_, ?_⟩
        · rcases List.mem_append.mp hr with hr | hr
          · rw [hnew] at hr
            rcases mem_foldl_addRelation (List.mem_of_mem_filter (List.mem_of_mem_filter hr)) with
              hr | hr
            · cases hr
            · exact List.mem_append_left _ hr
          · exact List.mem_append_right _ (hfresh r hr)
        · have hknown := relationItems_of_readRelations hlist (hstep.readRelations_eq hwrites).2
          have hnames : removedNames (e :: es) = removedNames es := by
            rw [removedNames, List.flatMap_cons, hnone]
            rfl
          rw [hitems, hmid, relationItems_encode, foldl_addRelation_eq, ← hnew, List.map_append,
            List.filter_append, filter_keptItem_encode (removedNames es) new, hnames, ← hknown,
            List.map_append, List.append_assoc]

/-! ## Documents -/

/-- The applications that an overlay names, under either of their keys. -/
def namedApplications (overlay : Value) : Mapping :=
  (rootOf overlay).flatMap newApplications

def namedMachines (overlay : Value) : Mapping :=
  (rootOf overlay).flatMap newMachines

def namedRelations (overlay : Value) : List Relation :=
  (rootOf overlay).flatMap newRelations

section Apply

variable {origin : String} {base overlay d : Value} (hbase : base.DistinctKeys)
  (hoverlay : overlay.DistinctKeys) (h : apply origin base overlay = .ok d)

include hbase hoverlay h

theorem applicationsOf_apply :
    applicationsOf d = (namedApplications overlay).foldl mergePart (applicationsOf base) := by
  have hrun := sectionRun_of_apply hbase hoverlay h
  have hsections := (distinctKeys_rootOf hoverlay).parts
  rw [applicationsOf, hrun.applicationKey_eq rfl hsections,
    hrun.applicationsUnder_eq (ofName_applicationKey _) hsections]
  rfl

theorem machinesOf_apply :
    machinesOf d = (namedMachines overlay).foldl mergeMachine (machinesOf base) :=
  (sectionRun_of_apply hbase hoverlay h).machinesUnder_eq (ofName_applicationKey _)
    (distinctKeys_rootOf hoverlay).parts

end Apply

end BundleCheck.Overlay
