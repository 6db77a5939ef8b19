import BundleCheck.Proofs.Overlay.Contents
import BundleCheck.Proofs.Yaml.Equality

/-! # What an overlay leaves alone

An overlay changes only what it names: the other applications, machines and sections stay as they
are, so do the other fields of what is merged, and the list of relations begins with those that
were there, less those of removed applications. -/

namespace BundleCheck.Overlay

open Yaml

/-! ## What is not given -/

/-- Fields that none of some given ones has stay when these are merged in order. -/
theorem get?_foldl_mergeFields {given : List Mapping} (hgiven : ∀ new ∈ given, new.DistinctKeys)
    {fields : Mapping} (hfields : fields.DistinctKeys) {j : Value} (hj : j.DistinctKeys)
    (hnone : ∀ new ∈ given, new.get? j = none) :
    Mapping.get? (given.foldl mergeFields fields) j = fields.get? j := by
  induction given generalizing fields with
  | nil => rfl
  | cons new rest ih =>
      obtain ⟨hnew, hrest⟩ := List.forall_mem_cons.mp hgiven
      obtain ⟨hnonenew, hnonerest⟩ := List.forall_mem_cons.mp hnone
      have hmerged : (mergeFields fields new).DistinctKeys :=
        keyLocal_mergeField.foldl_distinctKeys hfields hnew
      rw [List.foldl_cons, ih hrest hmerged hnonerest, mergeFields,
        keyLocal_mergeField.get?_foldl hfields hnew hj, hnonenew]
      rfl

/-! ## Documents -/

/-- A document is as the base was, but for what the overlay names. -/
structure ChangesOnlyNamed (base overlay d : Value) : Prop where
  /-- Applications that are not named. -/
  applications : ∀ k : Value, k.DistinctKeys →
    (∀ e ∈ namedApplications overlay, k.same e.1 = false) →
      (applicationsOf d).get? k = (applicationsOf base).get? k
  /-- Fields of a merged application that are not named. -/
  applicationFields : ∀ (k : Value) (fields : Mapping), k.DistinctKeys →
    (applicationsOf base).get? k = some (.mapping fields) →
    (∀ e ∈ namedApplications overlay, k.same e.1 = true → ∃ given, e.2 = .mapping given) →
      ∃ merged : Mapping, (applicationsOf d).get? k = some (.mapping merged) ∧
        ∀ j : Value, j.DistinctKeys → (∀ e ∈ namedApplications overlay, k.same e.1 = true →
          (fieldsOf (some e.2)).get? j = none) → merged.get? j = fields.get? j
  /-- Machines that are not named. -/
  machines : ∀ b : Value × Value, (∀ e ∈ namedMachines overlay, names e.1 b.1 = false) →
    (b ∈ machinesOf d ↔ b ∈ machinesOf base)
  /-- Fields of a merged machine that are not named. -/
  machineFields : ∀ (k : Value) (fields : Mapping), (k, .mapping fields) ∈ machinesOf base →
    (∀ e ∈ namedMachines overlay, names e.1 k = true → ∃ given, e.2 = .mapping given) →
      ∃ merged : Mapping, (k, .mapping merged) ∈ machinesOf d ∧
        ∀ j : Value, j.DistinctKeys → (∀ e ∈ namedMachines overlay, names e.1 k = true →
          (fieldsOf (some e.2)).get? j = none) → merged.get? j = fields.get? j
  /-- Sections that are not named. -/
  sections : ∀ k : Value, k.DistinctKeys → StandsApart (applicationKey (rootOf base)) k →
    (∀ e ∈ rootOf overlay, sectionKind? e.1 = some .other → k.same e.1 = false) →
      (rootOf d).get? k = (rootOf base).get? k
  /-- Relations of applications that are not removed. -/
  relations : ∃ fresh : List Relation, (∀ r ∈ fresh, r ∈ namedRelations overlay) ∧
    relationItems ((rootOf d).getName? "relations") =
      (relationItems ((rootOf base).getName? "relations")).filter
        (keptItem (removedNames (rootOf overlay))) ++ fresh.map Relation.encode

/-- An overlay changes only what it names. -/
theorem changesOnlyNamed_of_apply {origin : String} {base overlay d : Value}
    (hbase : base.DistinctKeys) (hoverlay : overlay.DistinctKeys)
    (huntagged : base.isUntagged = true) (h : apply origin base overlay = .ok d) :
    ChangesOnlyNamed base overlay d := by
  have hrun := sectionRun_of_apply hbase hoverlay h
  have hsections := (distinctKeys_rootOf hoverlay).parts
  have happs := applicationsOf_apply hbase hoverlay h
  have hmachines := machinesOf_apply hbase hoverlay h
  have hbaseApps : (applicationsOf base).DistinctKeys :=
    distinctKeys_applicationsUnder (distinctKeys_rootOf hbase) _
  have hbaseMachines : (machinesOf base).DistinctKeys :=
    distinctKeys_machinesUnder (distinctKeys_rootOf hbase)
  have hnewApps := distinctKeys_mem_newApplications hsections
  have hnewMachines := distinctKeys_mem_newMachines hsections
  constructor
  case applications =>
    intro k hk hne
    rw [happs]
    exact get?_foldl_mergePart_of_same_eq_false hbaseApps hnewApps hk hne
  case applicationFields =>
    intro k fields hk hget hgiven
    rw [happs]
    refine ⟨_, get?_foldl_mergePart_mapping hbaseApps hnewApps hk hget hgiven,
      fun j hj hnone => ?_⟩
    refine get?_foldl_mergeFields (forall_mem_fieldsGiven.mpr fun e he _ => ?_)
      (Value.distinctKeys_mapping_iff.mp (hbaseApps.of_get? hget)) hj
      (forall_mem_fieldsGiven.mpr hnone)
    exact distinctKeys_fieldsOf_entry (hnewApps e he)
  case machines =>
    intro b hb
    rw [hmachines]
    exact mem_mergeMachines_of_names_eq_false hbaseMachines hnewMachines hb
  case machineFields =>
    intro k fields hmem hgiven
    obtain ⟨given, hsublist, -, hresult⟩ :=
      mem_foldl_mergeMachine_mapping hbaseMachines hnewMachines hmem hgiven
    rw [hmachines]
    refine ⟨given.foldl mergeFields fields, hresult, fun j hj hnone => ?_⟩
    have hdistinct : ∀ new ∈ given, new.DistinctKeys := fun new hnew =>
      forall_mem_fieldsGiven.mpr (fun e he _ => distinctKeys_fieldsOf_entry
        (hnewMachines e he)) new (hsublist.subset hnew)
    have hnames : ∀ new ∈ given, new.get? j = none := fun new hnew =>
      (forall_mem_fieldsGiven (P := fun new => new.get? j = none)).mpr hnone new
        (hsublist.subset hnew)
    exact get?_foldl_mergeFields hdistinct
      (Value.distinctKeys_mapping_iff.mp (hbaseMachines.parts _ hmem).2) hj hnames
  case sections =>
    intro k hk hapart hother
    exact hrun.get?_eq hsections hk fun e he => hapart.touches_eq_false (hother e he)
  case relations =>
    refine hrun.relationItems_eq (ofName_applicationKey _) hsections
      (untaggedList_of_isUntagged fun v hv => ?_)
    cases base with
    | mapping root => exact Value.isUntagged_of_get? huntagged hv
    | tagged tag w => cases huntagged
    | _ => cases hv

def sharedDocument : Value :=
  .mapping
    [(.string "series", .string "focal"),
      (.string "applications", .mapping
        [(.string "a", .mapping
            [(.string "charm", .string "x"), (.string "num_units", .number (.int 2))]),
          (.string "b", .mapping [(.string "charm", .string "y")]),
          (.string "c", .mapping [(.string "charm", .string "z")])]),
      (.string "machines", .mapping
        [(.string "0", .mapping [(.string "series", .string "focal")])]),
      (.string "relations", .sequence
        [.sequence [.string "a:one", .string "b:one"],
          .sequence [.string "a:two", .string " c:two"]])]

/-- Drops an application, and changes another one and the machine. -/
def changingOverlay : Value :=
  .mapping
    [(.string "relations", .sequence [.sequence [.string "c:two", .string "a:three"]]),
      (.string "machines", .mapping
        [(.number (.int 0), .mapping [(.string "constraints", .string "mem=4G")])]),
      (.string "applications", .mapping
        [(.string "a", .mapping [(.string "charm", .string "w")]), (.string "b", .null)])]

theorem changesOnlyNamed_changingOverlay :
    ∃ d, apply "overlay" sharedDocument changingOverlay = .ok d ∧
      ChangesOnlyNamed sharedDocument changingOverlay d := by
  have happly : apply "overlay" sharedDocument changingOverlay = .ok (.mapping
      [(.string "series", .string "focal"),
        (.string "applications", .mapping
          [(.string "a", .mapping
              [(.string "charm", .string "w"), (.string "num_units", .number (.int 2))]),
            (.string "c", .mapping [(.string "charm", .string "z")])]),
        (.string "machines", .mapping
          [(.string "0", .mapping
            [(.string "series", .string "focal"), (.string "constraints", .string "mem=4G")])]),
        (.string "relations", .sequence
          [.sequence [.string "a:two", .string " c:two"],
            .sequence [.string "c:two", .string "a:three"]])]) := by decide +kernel
  exact ⟨_, happly, changesOnlyNamed_of_apply (by decide +kernel) (by decide +kernel)
    (by decide +kernel) happly⟩

end BundleCheck.Overlay
