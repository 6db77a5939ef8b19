import BundleCheck.Proofs.Overlay.Documents

/-! # The two names of a section

The section of applications has two names. A document in which they are exchanged is merged as it
was before, in the base as well as in the overlay. -/

namespace BundleCheck.Overlay

open Yaml

/-! ## Exchanging the names -/

def otherName (name : String) : String :=
  if name = "applications" then "services"
  else if name = "services" then "applications"
  else name

def otherKey : Value → Value
  | .string name => .string (otherName name)
  | k => k

def swapNames (root : Mapping) : Mapping :=
  root.map fun e => (otherKey e.1, e.2)

def swapped (d : Value) : Value :=
  match d.entries? with
  | some root => d.withEntries (swapNames root)
  | none => d

/-- A name is one of the two, or stays. -/
theorem otherName_cases (name : String) :
    name = "applications" ∨ name = "services" ∨ otherName name = name := by
  by_cases happlications : name = "applications"
  · exact .inl happlications
  · by_cases hservices : name = "services"
    · exact .inr (.inl hservices)
    · exact .inr (.inr (by simp [otherName, happlications, hservices]))

theorem otherName_eq_self {name : String} (h : SectionKind.ofName name ≠ .applications) :
    otherName name = name := by
  rcases otherName_cases name with rfl | rfl | hself
  · exact absurd rfl h
  · exact absurd rfl h
  · exact hself

/-- Exchanging twice changes nothing. -/
theorem otherName_otherName (name : String) : otherName (otherName name) = name := by
  rcases otherName_cases name with rfl | rfl | h
  · rfl
  · rfl
  · rw [h, h]

theorem otherName_inj {name name' : String} : otherName name = otherName name' ↔ name = name' := by
  constructor
  · intro h
    rw [← otherName_otherName name, h, otherName_otherName]
  · intro h
    rw [h]

theorem ofName_otherName (name : String) :
    SectionKind.ofName (otherName name) = SectionKind.ofName name := by
  rcases otherName_cases name with rfl | rfl | h
  · rfl
  · rfl
  · rw [h]

theorem sectionKind?_otherKey (k : Value) : sectionKind? (otherKey k) = sectionKind? k := by
  cases k with
  | string name => exact congrArg some (ofName_otherName name)
  | _ => rfl

theorem otherKey_eq_self {k : Value} (h : sectionKind? k ≠ some .applications) :
    otherKey k = k := by
  cases k with
  | string name =>
      refine congrArg Value.string (otherName_eq_self fun hname => h ?_)
      exact congrArg some hname
  | _ => rfl

theorem same_otherKey (k l : Value) : (otherKey k).same (otherKey l) = k.same l := by
  cases k with
  | string name =>
      cases l with
      | string name' =>
          rw [Bool.eq_iff_iff, otherKey, otherKey, Value.same_string_iff, Value.same_string_iff,
            Value.string.injEq, Value.string.injEq, otherName_inj]
      | _ => rfl
  | _ => cases l <;> rfl

/-! ## Mappings -/

section

variable (root : Mapping) (k v : Value) (name : String)

theorem get?_swapNames : (swapNames root).get? (otherKey k) = root.get? k := by
  induction root with
  | nil => rfl
  | cons e es ih =>
      rw [swapNames, List.map_cons, Mapping.get?_cons, Mapping.get?_cons, same_otherKey]
      exact congrArg _ ih

theorem getName?_swapNames : (swapNames root).getName? (otherName name) = root.getName? name :=
  get?_swapNames root (.string name)

theorem containsName_swapNames :
    (swapNames root).containsName (otherName name) = root.containsName name := by
  rw [Mapping.containsName, Mapping.containsName, Mapping.contains_eq_isSome_get?,
    Mapping.contains_eq_isSome_get?]
  exact congrArg Option.isSome (get?_swapNames root (.string name))

theorem insert_swapNames :
    (swapNames root).insert (otherKey k) v = swapNames (root.insert k v) := by
  induction root with
  | nil => rfl
  | cons e es ih =>
      rw [swapNames, List.map_cons, Mapping.insert, Mapping.insert, same_otherKey]
      by_cases h : k.same e.1 = true
      · simp only [h, if_true]
        rfl
      · simp only [h, Bool.false_eq_true, if_false]
        exact congrArg _ ih

theorem sectionOf_swapNames :
    sectionOf (swapNames root) (otherName name) = sectionOf root name := by
  rw [sectionOf, sectionOf, getName?_swapNames]

end

/-! ## Sections -/

variable {origin key : String}

theorem getName?_relations_swapNames (root : Mapping) :
    (swapNames root).getName? "relations" = root.getName? "relations" :=
  getName?_swapNames root "relations"

theorem removeRelations_swapNames (root : Mapping) (name : String) :
    removeRelations (swapNames root) name = swapNames (removeRelations root name) := by
  unfold removeRelations
  rw [getName?_relations_swapNames]
  split
  · exact insert_swapNames root (.string "relations") _
  · rfl

theorem foldl_removeRelations_swapNames (root : Mapping) (names : List String) :
    names.foldl removeRelations (swapNames root) =
      swapNames (names.foldl removeRelations root) := by
  induction names generalizing root with
  | nil => rfl
  | cons name names ih =>
      rw [List.foldl_cons, List.foldl_cons, removeRelations_swapNames, ih]

theorem mergeApplications_swapNames (root : Mapping) (v : Value) :
    mergeApplications origin (otherName key) (swapNames root) v =
      (mergeApplications origin key root v).map fun r => (swapNames r.1, r.2) := by
  unfold mergeApplications
  cases v with
  | mapping new =>
      simp only [sectionOf_swapNames]
      split
      · rfl
      next existing hexisting =>
        cases mergeEach origin existing [] new with
        | error cause => rfl
        | ok r =>
            exact congrArg (fun root => Except.ok (root, r.2))
              (insert_swapNames root (.string key) _)
  | _ => rfl

theorem mergeMachines_swapNames (root : Mapping) (v : Value) :
    mergeMachines origin (swapNames root) v = (mergeMachines origin root v).map swapNames := by
  have hsection : sectionOf (swapNames root) "machines" = sectionOf root "machines" :=
    sectionOf_swapNames root "machines"
  unfold mergeMachines
  cases v with
  | mapping new =>
      simp only [hsection]
      split
      · rfl
      · exact congrArg Except.ok (insert_swapNames root (.string "machines") _)
  | _ => rfl

theorem appendRelations_swapNames (root : Mapping) (v : Value) :
    appendRelations origin (swapNames root) v =
      (appendRelations origin root v).map swapNames := by
  have hbase : baseRelations origin (swapNames root) = baseRelations origin root := by
    rw [baseRelations, baseRelations, getName?_relations_swapNames]
  unfold appendRelations
  split
  · rfl
  · simp only [hbase]
    cases (readRelations v : Except Mismatch (List Relation)) with
    | error cause => rfl
    | ok added =>
        cases baseRelations origin root with
        | error cause => rfl
        | ok known => exact congrArg Except.ok (insert_swapNames root (.string "relations") _)

/-- A section is applied to the document with the names exchanged as it is to the document. -/
theorem applySection_swapNames (root : Mapping) (e : Value × Value) :
    applySection origin (otherName key) (swapNames root) e =
      (applySection origin key root e).map swapNames := by
  rw [applySection_eq, applySection_eq]
  split
  · rfl
  · rw [mergeApplications_swapNames]
    cases mergeApplications origin key root e.2 with
    | error cause => rfl
    | ok r => exact congrArg Except.ok (foldl_removeRelations_swapNames r.1 r.2)
  · exact mergeMachines_swapNames root e.2
  · exact appendRelations_swapNames root e.2
  next hkind =>
    have hkey : otherKey e.1 = e.1 := otherKey_eq_self (by simp [hkind])
    refine congrArg Except.ok ?_
    conv_lhs => rw [← hkey]
    exact insert_swapNames root e.1 e.2

/-- It does not matter under which of the two names an overlay gives applications. -/
theorem applySection_otherKey (root : Mapping) (e : Value × Value) :
    applySection origin key root (otherKey e.1, e.2) = applySection origin key root e := by
  rw [applySection_eq, applySection_eq, sectionKind?_otherKey]
  split
  · rfl
  · rfl
  · rfl
  · rfl
  next hkind =>
    have hkey : otherKey e.1 = e.1 := otherKey_eq_self (by simp [hkind])
    rw [hkey]

/-! ## Names that stay -/

variable {root root' : Mapping} {name : String}

theorem containsName_foldl_removeRelations (hname : SectionKind.ofName name = .applications)
    (names : List String) :
    Mapping.containsName (names.foldl removeRelations root) name = root.containsName name := by
  induction names generalizing root with
  | nil => rfl
  | cons n names ih =>
      rw [List.foldl_cons, ih]
      rcases removeRelations_eq root n with heq | ⟨items, -, heq⟩
      · rw [heq]
      · rw [heq]
        refine Mapping.containsName_insert_eq_self fun hsame => ?_
        cases Value.same_string_iff.mp hsame
        cases hname

theorem mergeApplications_cases {v : Value} {r : Mapping × List String}
    (h : mergeApplications origin key root v = .ok r) :
    r.1 = root ∨ ∃ w, r.1 = root.insert (.string key) w := by
  unfold mergeApplications at h
  split at h
  · cases h
    exact .inl rfl
  · dsimp only at h
    split at h
    · cases h
    · obtain ⟨merged, -, h⟩ := bind_eq_ok_iff.mp h
      cases h
      exact .inr ⟨_, rfl⟩
  · cases h

/-- Once the applications have a key, no section brings them under the other one. -/
theorem containsName_applySection (hname : SectionKind.ofName name = .applications)
    (hkey : root.containsName key = true) {e : Value × Value}
    (h : applySection origin key root e = .ok root') :
    root'.containsName name = root.containsName name := by
  have hother : ∀ {k : Value} (v : Value), sectionKind? k ≠ some .applications →
      Mapping.containsName (root.insert k v) name = root.containsName name := by
    intro k v hk
    refine Mapping.containsName_insert_eq_self fun hsame => absurd ?_ hk
    rw [Value.same_string_iff.mp hsame]
    exact congrArg some hname
  rw [applySection_eq] at h
  split at h
  · cases h
  · obtain ⟨r, hr, h⟩ := bind_eq_ok_iff.mp h
    cases h
    rw [containsName_foldl_removeRelations hname]
    rcases mergeApplications_cases hr with heq | ⟨w, heq⟩
    · rw [heq]
    · rw [heq]
      refine Mapping.containsName_insert_eq_self fun hsame => ?_
      rwa [← Value.string.inj (Value.same_string_iff.mp hsame)]
  · rcases mergeMachines_eq_ok_iff.mp h with ⟨-, heq⟩ | ⟨_, _, -, -, heq⟩
    · rw [heq]
    · rw [heq]
      exact hother _ (by decide)
  · rcases appendRelations_eq_ok_iff.mp h with ⟨-, heq⟩ | ⟨-, _, _, -, -, heq⟩
    · rw [heq]
    · rw [heq]
      exact hother _ (by decide)
  next hkind =>
    cases h
    exact hother _ (by simp [hkind])

/-! ## Documents -/

/-- The document has one of the two names, and not the other. -/
def HasOneName (d : Value) : Prop :=
  (rootOf d).containsName "applications" = !(rootOf d).containsName "services"

theorem applicationKey_swapNames
    (h : root.containsName "applications" = !root.containsName "services") :
    applicationKey (swapNames root) = otherName (applicationKey root) := by
  have happlications : (swapNames root).containsName "applications" =
      root.containsName "services" := containsName_swapNames root "services"
  have hservices : (swapNames root).containsName "services" =
      root.containsName "applications" := containsName_swapNames root "applications"
  unfold applicationKey
  rw [happlications, hservices, h]
  cases root.containsName "services" <;> rfl

theorem containsName_applicationKey
    (h : root.containsName "applications" = !root.containsName "services") :
    root.containsName (applicationKey root) = true := by
  unfold applicationKey
  split
  next happlications => exact happlications
  next happlications =>
    have hservices : root.containsName "services" = true := by simpa [happlications] using h
    rw [if_pos hservices]
    exact hservices

theorem swapped_mapping (root : Mapping) : swapped (.mapping root) = .mapping (swapNames root) :=
  rfl

theorem entries?_swapped (d : Value) : (swapped d).entries? = d.entries?.map swapNames := by
  unfold swapped
  cases h : d.entries? with
  | none => exact h
  | some root => exact entries?_withEntries d (swapNames root)

theorem rootOf_swapped (d : Value) : rootOf (swapped d) = swapNames (rootOf d) := by
  rw [rootOf, rootOf, entries?_swapped]
  cases d.entries? <;> rfl

theorem swapped_withEntries (d : Value) (root : Mapping) :
    swapped (d.withEntries root) = d.withEntries (swapNames root) := by
  rw [swapped, entries?_withEntries]
  exact withEntries_withEntries d root (swapNames root)

/-- An overlay changes a document in the same way under either name. -/
theorem apply_swapped (d overlay : Value) :
    apply origin d (swapped overlay) = apply origin d overlay := by
  cases overlay with
  | mapping sections =>
      have hsections : ∀ key root, (swapNames sections).foldlM (applySection origin key) root =
          sections.foldlM (applySection origin key) root := by
        intro key root
        rw [swapNames, List.foldlM_map]
        simp only [applySection_otherKey]
      simp only [swapped_mapping, apply, hsections]
  | tagged tag v =>
      unfold swapped
      split <;> rfl
  | _ => rfl

/-- A document under one name is changed as it is under the other. -/
theorem swapped_apply {d : Value} (hd : HasOneName d) (overlay : Value) :
    apply origin (swapped d) overlay = (apply origin d overlay).map swapped := by
  cases overlay with
  | mapping sections =>
      rw [apply, apply, entries?_swapped]
      cases hroot : d.entries? with
      | none => rfl
      | some root =>
          rw [HasOneName, rootOf, hroot, Option.getD_some] at hd
          have hrun : sections.foldlM (applySection origin (otherName (applicationKey root)))
              (swapNames root) =
                (sections.foldlM (applySection origin (applicationKey root)) root).map swapNames :=
            foldlM_map (fun _ => True) swapNames (fun root e _ _ => applySection_swapNames root e)
              (fun _ _ _ _ _ _ => trivial) trivial
          simp only [Option.map_some, applicationKey_swapNames hd, hrun]
          cases sections.foldlM (applySection origin (applicationKey root)) root with
          | error cause => rfl
          | ok merged =>
              have hd' : swapped d = d.withEntries (swapNames root) := by rw [swapped, hroot]
              refine congrArg Except.ok ?_
              rw [swapped_withEntries, hd', withEntries_withEntries]
  | _ => rfl

theorem hasOneName_apply {d d' overlay : Value} (hd : HasOneName d)
    (h : apply origin d overlay = .ok d') : HasOneName d' := by
  unfold apply at h
  split at h
  · cases h
    exact hd
  · split at h
    · cases h
    next root hroot =>
      obtain ⟨merged, hmerged, h⟩ := bind_eq_ok_iff.mp h
      cases h
      rw [HasOneName, rootOf, hroot, Option.getD_some] at hd
      have hkey : root.containsName (applicationKey root) = true := containsName_applicationKey hd
      have hkept : ∀ name, SectionKind.ofName name = .applications →
          merged.containsName name = root.containsName name := by
        refine foldlM_preserves (P := fun merged => ∀ name,
          SectionKind.ofName name = .applications →
            merged.containsName name = root.containsName name)
          (fun m m' e _ hm hstep name hname => ?_) (fun _ _ => rfl) hmerged
        have hkey' : m.containsName (applicationKey root) = true := by
          rw [hm _ (ofName_applicationKey root), hkey]
        rw [containsName_applySection hname hkey' hstep, hm name hname]
      rw [HasOneName, rootOf, entries?_withEntries]
      exact (hkept "applications" rfl).trans (hd.trans (congrArg _ (hkept "services" rfl).symm))
  · cases h

end BundleCheck.Overlay
