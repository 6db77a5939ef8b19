import BundleCheck.Proofs.Overlay.Agreement
import BundleCheck.Proofs.Overlay.Contents
import BundleCheck.Proofs.Yaml.Equality

/-! # Merging key by key

What merging fields leaves under each field and, for the fields that are merged key by key, under
each of their keys. A null takes a key away only if the field was a mapping before: a new field is
taken over as it is given, nulls and all, and a bundle whose bindings or annotations hold one is
rejected. -/

namespace BundleCheck.Overlay

open Yaml

/-! ## One merge -/

/-- What merging the given fields into those of a part leaves. -/
structure KeywiseMerge (fields given merged : Mapping) : Prop where
  /-- A field that is not given stays. -/
  kept : ∀ f : Value, f.DistinctKeys → given.get? f = none → merged.get? f = fields.get? f
  /-- A field of another kind, or with another value than a mapping, is replaced. -/
  replaced : ∀ f v : Value, f.DistinctKeys → given.get? f = some v →
    (keywiseKey f = true → ∀ new, v ≠ .mapping new) → merged.get? f = some v
  /-- A key holds what is given for it, nothing if that is null, and what it held before if nothing
  is given; but a null takes the key away only if the field was a mapping before. -/
  keywise : ∀ (f : Value) (new : Mapping), f.DistinctKeys → keywiseKey f = true →
    given.get? f = some (.mapping new) → ∃ result : Mapping,
      merged.get? f = some (.mapping result) ∧ ∀ k : Value, k.DistinctKeys →
        (result.get? k =
            mergedUnder mergedKey k ((fieldsOf (fields.get? f)).get? k) (new.get? k) ↔
          (∃ existing, fields.get? f = some (.mapping existing)) ∨
            ∀ v, new.get? k = some v → v.isNull = false)

/-- A mapping that is taken over as it is follows the law where it gives no null. -/
theorem eq_mergedUnder_nil_iff (new : Mapping) (k : Value) :
    new.get? k = mergedUnder mergedKey k none (new.get? k) ↔
      ∀ v, new.get? k = some v → v.isNull = false := by
  cases new.get? k with
  | none => simp [mergedUnder]
  | some v =>
      by_cases hnull : v.isNull = true
      · simp [mergedUnder, mergedKey, hnull]
      · simp [mergedUnder, mergedKey, hnull]

theorem keywiseMerge_mergeFields {fields given : Mapping} (hfields : fields.DistinctKeys)
    (hgiven : given.DistinctKeys) : KeywiseMerge fields given (mergeFields fields given) := by
  have hmerged : ∀ f : Value, f.DistinctKeys → (mergeFields fields given).get? f =
      mergedUnder (fun f old new => some (mergedField f old new)) f (fields.get? f)
        (given.get? f) := fun f hf => keyLocal_mergeField.get?_foldl hfields hgiven hf
  constructor
  case kept =>
    intro f hf hnone
    rw [hmerged f hf, hnone]
    rfl
  case replaced =>
    intro f v hf hget hother
    rw [hmerged f hf, hget]
    rcases mergedField_cases f (fields.get? f) v with ⟨hv, -⟩ | ⟨_, new, hkeywise, -, rfl, -⟩
    · exact congrArg some hv
    · exact absurd rfl (hother hkeywise new)
  case keywise =>
    intro f new hf hkeywise hget
    have hnew := Value.distinctKeys_mapping_iff.mp (hgiven.of_get? hget)
    rw [hmerged f hf, hget]
    rcases mergedField_cases f (fields.get? f) (.mapping new) with
      ⟨hv, hnot⟩ | ⟨existing, _, -, hold, hnew', hv⟩
    · -- The field was no mapping, and the new one is taken over.
      have hnone : ∀ existing, fields.get? f ≠ some (.mapping existing) := fun existing hold =>
        hnot ⟨hkeywise, ⟨existing, hold⟩, new, rfl⟩
      refine ⟨new, congrArg some hv, fun k _ => ?_⟩
      rw [fieldsOf_eq_nil hnone, Mapping.get?_nil, eq_mergedUnder_nil_iff]
      refine ⟨.inr, fun h => h.resolve_left fun ⟨existing, hold⟩ => hnone existing hold⟩
    · cases hnew'
      have hexisting := Value.distinctKeys_mapping_iff.mp (hfields.of_get? hold)
      refine ⟨new.foldl mergeKey existing, congrArg some hv, fun k hk => ?_⟩
      refine ⟨fun _ => .inl ⟨existing, hold⟩, fun _ => ?_⟩
      rw [keyLocal_mergeKey.get?_foldl hexisting hnew hk, hold]
      rfl

/-! ## Merges in order -/

inductive MergedInOrder : Mapping → List Mapping → Mapping → Prop
  | nil (fields : Mapping) : MergedInOrder fields [] fields
  | cons {fields given between merged : Mapping} {rest : List Mapping}
      (hfirst : KeywiseMerge fields given between) (hrest : MergedInOrder between rest merged) :
      MergedInOrder fields (given :: rest) merged

theorem mergedInOrder_foldl {given : List Mapping} (hgiven : ∀ new ∈ given, new.DistinctKeys)
    {fields : Mapping} (hfields : fields.DistinctKeys) :
    MergedInOrder fields given (given.foldl mergeFields fields) := by
  induction given generalizing fields with
  | nil => exact .nil fields
  | cons new rest ih =>
      obtain ⟨hnew, hrest⟩ := List.forall_mem_cons.mp hgiven
      exact .cons (keywiseMerge_mergeFields hfields hnew)
        (ih hrest (keyLocal_mergeField.foldl_distinctKeys hfields hnew))

/-! ## Documents -/

/-- What an overlay gives for the applications and the machines of a base is merged into them. -/
structure MergesKeywise (base overlay d : Value) : Prop where
  applications : ∀ (k : Value) (fields : Mapping), k.DistinctKeys →
    (applicationsOf base).get? k = some (.mapping fields) →
    (∀ e ∈ namedApplications overlay, k.same e.1 = true → ∃ given, e.2 = .mapping given) →
      ∃ merged, (applicationsOf d).get? k = some (.mapping merged) ∧
        MergedInOrder fields (fieldsGiven k.same (namedApplications overlay)) merged
  /-- Where another machine has the same name, a key may find that one. -/
  machines : ∀ (k : Value) (fields : Mapping), (k, .mapping fields) ∈ machinesOf base →
    (∀ e ∈ namedMachines overlay, names e.1 k = true → ∃ given, e.2 = .mapping given) →
      ∃ given merged, given.Sublist (fieldsGiven (names · k) (namedMachines overlay)) ∧
        (ListedOnce (machinesOf base) k → isZeroKey k = false →
          given = fieldsGiven (names · k) (namedMachines overlay)) ∧
        (k, .mapping merged) ∈ machinesOf d ∧ MergedInOrder fields given merged

/-- The fields that an overlay gives for an application or a machine are merged into those that it
has, key by key where the field is a mapping already. -/
theorem mergesKeywise_of_apply {origin : String} {base overlay d : Value}
    (hbase : base.DistinctKeys) (hoverlay : overlay.DistinctKeys)
    (h : apply origin base overlay = .ok d) : MergesKeywise base overlay d := by
  have hsections := (distinctKeys_rootOf hoverlay).parts
  have hnewApps := distinctKeys_mem_newApplications hsections
  have hnewMachines := distinctKeys_mem_newMachines hsections
  constructor
  case applications =>
    intro k fields hk hget hgiven
    have hbaseApps : (applicationsOf base).DistinctKeys :=
      distinctKeys_applicationsUnder (distinctKeys_rootOf hbase) _
    rw [applicationsOf_apply hbase hoverlay h]
    refine ⟨_, get?_foldl_mergePart_mapping hbaseApps hnewApps hk hget hgiven, ?_⟩
    refine mergedInOrder_foldl (forall_mem_fieldsGiven.mpr fun e he _ => ?_)
      (Value.distinctKeys_mapping_iff.mp (hbaseApps.of_get? hget))
    exact distinctKeys_fieldsOf_entry (hnewApps e he)
  case machines =>
    intro k fields hmem hgiven
    have hbaseMachines : (machinesOf base).DistinctKeys :=
      distinctKeys_machinesUnder (distinctKeys_rootOf hbase)
    obtain ⟨given, hsublist, hall, hresult⟩ :=
      mem_foldl_mergeMachine_mapping hbaseMachines hnewMachines hmem hgiven
    rw [machinesOf_apply hbase hoverlay h]
    refine ⟨given, _, hsublist, hall, hresult, mergedInOrder_foldl (fun new hnew => ?_)
      (Value.distinctKeys_mapping_iff.mp (hbaseMachines.parts _ hmem).2)⟩
    exact forall_mem_fieldsGiven.mpr (fun e he _ => distinctKeys_fieldsOf_entry
      (hnewMachines e he)) new (hsublist.subset hnew)

/-! ### A null in a field -/

def unboundDocument : Value :=
  .mapping
    [(.string "applications", .mapping
      [(.string "a", .mapping [(.string "charm", .string "x"),
        (.string "options", .mapping
          [(.string "debug", .bool true), (.string "level", .number (.int 1))])])]),
      (.string "machines", .mapping [(.string "0", .mapping [])])]

/-- Takes an option away, changes another one, and annotates the machine. -/
def dropOption : Value :=
  .mapping
    [(.string "applications", .mapping
      [(.string "a", .mapping [(.string "options", .mapping
        [(.string "debug", .null), (.string "level", .number (.int 2))])])]),
      (.string "machines", .mapping
        [(.number (.int 0), .mapping
          [(.string "annotations", .mapping [(.string "zone", .string "north")])])])]

theorem mergesKeywise_dropOption :
    ∃ d, apply "overlay" unboundDocument dropOption = .ok d ∧
      MergesKeywise unboundDocument dropOption d := by
  have happly : apply "overlay" unboundDocument dropOption = .ok (.mapping
      [(.string "applications", .mapping
        [(.string "a", .mapping [(.string "charm", .string "x"),
          (.string "options", .mapping [(.string "level", .number (.int 2))])])]),
        (.string "machines", .mapping
          [(.string "0", .mapping
            [(.string "annotations", .mapping [(.string "zone", .string "north")])])])]) := by
    decide +kernel
  exact ⟨_, happly, mergesKeywise_of_apply (by decide +kernel) (by decide +kernel) happly⟩

/-- Takes a binding away that the application does not have. -/
def dropBinding : Value :=
  .mapping
    [(.string "applications", .mapping
      [(.string "a", .mapping [(.string "bindings", .mapping [(.string "db", .null)])])])]

/-- The null of a binding that is not there is taken over, and the bundle cannot be read. -/
theorem dropBinding_taken_over :
    ∃ d, apply "overlay" unboundDocument dropBinding = .ok d ∧
      (∃ fields, (applicationsOf d).getName? "a" = some (.mapping fields) ∧
        Mapping.getName? fields "bindings" = some (.mapping [(.string "db", .null)])) ∧
      (Bundle.decode unboundDocument).isOk = true ∧ (Bundle.decode d).isOk = false := by
  refine ⟨.mapping
    [(.string "applications", .mapping
      [(.string "a", .mapping [(.string "charm", .string "x"),
        (.string "options", .mapping
          [(.string "debug", .bool true), (.string "level", .number (.int 1))]),
        (.string "bindings", .mapping [(.string "db", .null)])])]),
      (.string "machines", .mapping [(.string "0", .mapping [])])], ?_, ⟨
    [(.string "charm", .string "x"),
      (.string "options", .mapping
        [(.string "debug", .bool true), (.string "level", .number (.int 1))]),
      (.string "bindings", .mapping [(.string "db", .null)])], ?_, ?_⟩, ?_, ?_⟩
  all_goals decide +kernel

end BundleCheck.Overlay
