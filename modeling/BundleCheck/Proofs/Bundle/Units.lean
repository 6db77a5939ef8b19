import BundleCheck.Bundle.Basic
import BundleCheck.Proofs.Except
import BundleCheck.Proofs.SortedMap

/-! # The units on machines

Units are put under the machine that their directive names. Nothing is lost and nothing comes twice:
under each machine stand exactly the units that are placed on it, by application and then by
unit. -/

namespace BundleCheck

/-- The unit is one of an earlier application, or an earlier one of the same application. -/
def HostedUnit.Precedes (u v : HostedUnit) : Prop :=
  compare u.application v.application = .lt ∨ u.application = v.application ∧ u.unit < v.unit

theorem HostedUnit.not_precedes_self (u : HostedUnit) : ¬ u.Precedes u := by
  simp [Precedes]

/-- A list without repetitions that has what an option holds is the list of it. -/
theorem eq_toList_of_mem_iff {α : Type*} {xs : List α} {o : Option α} (hnodup : xs.Nodup)
    (h : ∀ x, x ∈ xs ↔ o = some x) : xs = o.toList := by
  cases o with
  | none => simpa [List.eq_nil_iff_forall_not_mem] using h
  | some y =>
      rw [Option.toList_some, ← List.perm_singleton,
        List.perm_ext_iff_of_nodup hnodup (List.nodup_singleton y)]
      intro x
      rw [h, Option.some.injEq, List.mem_singleton, eq_comm]

namespace Bundle

/-! ## Putting units under their machines -/

section Grouping

variable {units : SortedMap MachineId (List HostedUnit)}

theorem getD_get?_addUnit (u : MachineId × HostedUnit) (id : MachineId) :
    ((addUnit units u).get? id).getD [] =
      (units.get? id).getD [] ++ if u.1 = id then [u.2] else [] := by
  rw [addUnit, SortedMap.get?_insert]
  by_cases hid : u.1 = id <;> simp [hid]

/-- Each machine gets its units behind those it has, in order. -/
theorem getD_get?_foldl_addUnit (us : List (MachineId × HostedUnit)) (id : MachineId) :
    ((us.foldl addUnit units).get? id).getD [] =
      (units.get? id).getD [] ++ (us.filter fun u => u.1 = id).map (·.2) := by
  induction us generalizing units with
  | nil => simp
  | cons u us ih =>
      rw [List.foldl_cons, ih, getD_get?_addUnit, List.filter_cons]
      by_cases hid : u.1 = id <;> simp [hid]

def NoneEmpty (units : SortedMap MachineId (List HostedUnit)) : Prop :=
  ∀ e ∈ units.entries, e.2 ≠ []

theorem NoneEmpty.foldl_addUnit (h : NoneEmpty units) (us : List (MachineId × HostedUnit)) :
    NoneEmpty (us.foldl addUnit units) := by
  induction us generalizing units with
  | nil => exact h
  | cons u us ih =>
      refine ih fun e he => ?_
      rcases SortedMap.mem_insertEntry he with rfl | he
      · simp
      · exact h e he

/-- The units of all machines, each with its machine. -/
def allUnits (units : SortedMap MachineId (List HostedUnit)) : List (MachineId × HostedUnit) :=
  units.entries.flatMap fun e => e.2.map fun u => (e.1, u)

theorem allUnits_addUnit_perm (u : MachineId × HostedUnit) :
    (allUnits (addUnit units u)).Perm (u :: allUnits units) := by
  cases hget : units.get? u.1 with
  | none =>
      have hentries := SortedMap.perm_entries_insert_of_get?_eq_none hget [u.2]
      simpa [allUnits, addUnit, hget] using
        hentries.flatMap_right fun e => e.2.map fun v => (e.1, v)
  | some hosted =>
      have hbefore := (SortedMap.perm_entries_of_get?_eq_some hget).flatMap_right
        fun e => e.2.map fun v => (e.1, v)
      have hafter := (units.perm_entries_insert u.1 (hosted ++ [u.2])).flatMap_right
        fun e => e.2.map fun v => (e.1, v)
      simp only [List.flatMap_cons, List.map_append, List.append_assoc, List.map_cons,
        List.map_nil, List.cons_append, List.nil_append] at hbefore hafter
      rw [addUnit, hget]
      exact (hafter.trans List.perm_middle).trans (hbefore.symm.cons u)

theorem allUnits_foldl_addUnit_perm (us : List (MachineId × HostedUnit)) :
    (allUnits (us.foldl addUnit units)).Perm (allUnits units ++ us) := by
  induction us generalizing units with
  | nil => simp
  | cons u us ih =>
      exact ih.trans (((allUnits_addUnit_perm u).append_right us).trans List.perm_middle.symm)

end Grouping

/-! ## The units that name a machine -/

/-- Where a directive puts a unit, if the application, the directive and its placement exist. -/
def placement? (b : Bundle) (application : String) (unit : Nat) : Option Placement :=
  (b.applications.get? application).bind fun a =>
    a.placements[unit]?.bind fun directive => (Placement.parse directive).toOption

theorem mem_parsedPlacements {a : Application}
    {p : Nat × String × Except PlacementError Placement} :
    p ∈ a.parsedPlacements ↔ a.placements[p.1]? = some p.2.1 ∧ p.2.2 = Placement.parse p.2.1 := by
  rw [Application.parsedPlacements, List.mem_mapIdx]
  constructor
  · rintro ⟨unit, hunit, rfl⟩
    exact ⟨List.getElem?_eq_getElem hunit, rfl⟩
  · intro ⟨hdirective, hparsed⟩
    obtain ⟨hunit, hget⟩ := List.getElem?_eq_some_iff.mp hdirective
    exact ⟨p.1, hunit, by rw [hget, ← hparsed]⟩

def hostedUnit? (application : String) (p : Nat × String × Except PlacementError Placement) :
    Option (MachineId × HostedUnit) :=
  p.2.2.toOption.bind fun placement =>
    placement.machineId?.map fun id => (id, ⟨application, p.1, placement⟩)

theorem hostedUnits_eq (b : Bundle) :
    b.hostedUnits = b.applications.entries.flatMap fun e =>
      e.2.parsedPlacements.filterMap (hostedUnit? e.1) := by
  refine List.flatMap_congr fun e _ => List.filterMap_congr fun p _ => ?_
  obtain ⟨unit, directive, parsed⟩ := p
  cases parsed <;> rfl

theorem hostedUnit?_eq_some_iff {application : String}
    {p : Nat × String × Except PlacementError Placement} {u : MachineId × HostedUnit} :
    hostedUnit? application p = some u ↔ p.2.2 = .ok u.2.placement ∧
      u.2.placement.machineId? = some u.1 ∧ u.2.application = application ∧ u.2.unit = p.1 := by
  simp only [hostedUnit?, Option.bind_eq_some_iff, toOption_eq_some_iff, Option.map_eq_some_iff]
  constructor
  · rintro ⟨placement, hparsed, id, hid, rfl⟩
    exact ⟨hparsed, hid, rfl, rfl⟩
  · rintro ⟨hparsed, hid, rfl, hunit⟩
    exact ⟨_, hparsed, _, hid, by rw [← hunit]⟩

/-- The units are those whose directives name a machine. -/
theorem mem_hostedUnits {b : Bundle} {u : MachineId × HostedUnit} :
    u ∈ b.hostedUnits ↔ b.placement? u.2.application u.2.unit = some u.2.placement ∧
      u.2.placement.machineId? = some u.1 := by
  simp only [hostedUnits_eq, List.mem_flatMap, List.mem_filterMap, mem_parsedPlacements,
    hostedUnit?_eq_some_iff, placement?, Option.bind_eq_some_iff, toOption_eq_some_iff,
    SortedMap.get?_eq_some_iff]
  constructor
  · rintro ⟨⟨application, a⟩, ha, p, ⟨hdirective, hparse⟩, hparsed, hid, rfl, hunit⟩
    exact ⟨⟨a, ha, p.2.1, hunit ▸ hdirective, hparse ▸ hparsed⟩, hid⟩
  · rintro ⟨⟨a, ha, directive, hdirective, hparse⟩, hid⟩
    exact ⟨_, ha, (u.2.unit, directive, Placement.parse directive), ⟨hdirective, rfl⟩, hparse, hid,
      rfl, rfl⟩

theorem pairwise_parsedPlacements (a : Application) :
    a.parsedPlacements.Pairwise fun p q => p.1 < q.1 := by
  rw [Application.parsedPlacements, List.pairwise_iff_getElem]
  intro i j _ _ hij
  simpa using hij

/-- Units come by application and then by unit. -/
theorem pairwise_hostedUnits (b : Bundle) :
    b.hostedUnits.Pairwise fun u v => u.2.Precedes v.2 := by
  rw [hostedUnits_eq, List.pairwise_flatMap]
  constructor
  · intro e _
    rw [List.pairwise_filterMap]
    refine (pairwise_parsedPlacements e.2).imp fun hpq u hu v hv => .inr ?_
    obtain ⟨-, -, hua, hunit⟩ := hostedUnit?_eq_some_iff.mp hu
    obtain ⟨-, -, hva, hvunit⟩ := hostedUnit?_eq_some_iff.mp hv
    exact ⟨hua.trans hva.symm, by rwa [hunit, hvunit]⟩
  · refine b.applications.sorted.imp fun hlt u hu v hv => .inl ?_
    obtain ⟨p, -, hp⟩ := List.mem_filterMap.mp hu
    obtain ⟨q, -, hq⟩ := List.mem_filterMap.mp hv
    rw [(hostedUnit?_eq_some_iff.mp hp).2.2.1, (hostedUnit?_eq_some_iff.mp hq).2.2.1]
    exact hlt

def namesMachine (directive : String) : Bool :=
  ((Placement.parse directive).toOption.bind Placement.machineId?).isSome

theorem map_directive_parsedPlacements (a : Application) :
    a.parsedPlacements.map (·.2.1) = a.placements := by
  apply List.ext_getElem?
  intro i
  simp [Application.parsedPlacements, Function.comp_def]

theorem isSome_hostedUnit? {application : String} {a : Application}
    {p : Nat × String × Except PlacementError Placement} (hp : p ∈ a.parsedPlacements) :
    (hostedUnit? application p).isSome = namesMachine p.2.1 := by
  rw [hostedUnit?, namesMachine, (mem_parsedPlacements.mp hp).2]
  cases (Placement.parse p.2.1).toOption with
  | none => rfl
  | some placement => simp

/-- There are as many units as there are directives that name a machine. -/
theorem length_hostedUnits (b : Bundle) :
    b.hostedUnits.length =
      (b.applications.values.map fun a => a.placements.countP namesMachine).sum := by
  have hcount : ∀ (application : String) (a : Application),
      (a.parsedPlacements.filterMap (hostedUnit? application)).length =
        a.placements.countP namesMachine := by
    intro application a
    rw [List.length_filterMap_eq_countP, ← map_directive_parsedPlacements a, List.countP_map]
    exact List.countP_congr fun p hp => by rw [isSome_hostedUnit? hp, Function.comp_apply]
  rw [hostedUnits_eq, List.length_flatMap, SortedMap.values, List.map_map]
  simp only [hcount]
  rfl

/-! ## The units on one machine -/

/-- The units on a machine; there are none if no directive names it. -/
def unitsOn (b : Bundle) (id : MachineId) : List HostedUnit :=
  (b.unitsByMachine.get? id).getD []

theorem unitsOn_eq (b : Bundle) (id : MachineId) :
    b.unitsOn id = (b.hostedUnits.filter fun u => u.1 = id).map (·.2) :=
  getD_get?_foldl_addUnit b.hostedUnits id

theorem mem_unitsOn {b : Bundle} {id : MachineId} {u : HostedUnit} :
    u ∈ b.unitsOn id ↔
      b.placement? u.application u.unit = some u.placement ∧ u.placement.machineId? = some id := by
  simp only [unitsOn_eq, List.mem_map, List.mem_filter, mem_hostedUnits, decide_eq_true_eq]
  constructor
  · rintro ⟨v, ⟨h, rfl⟩, rfl⟩
    exact h
  · exact fun h => ⟨(id, u), ⟨h, rfl⟩, rfl⟩

theorem pairwise_unitsOn (b : Bundle) (id : MachineId) :
    (b.unitsOn id).Pairwise HostedUnit.Precedes := by
  rw [unitsOn_eq, List.pairwise_map]
  exact b.pairwise_hostedUnits.filter _

/-- A unit stands on the machine that its directive names, once, and on no other. -/
theorem filter_unitsOn (b : Bundle) (application : String) (unit : Nat) (id : MachineId) :
    ((b.unitsOn id).filter fun u => u.application = application ∧ u.unit = unit) =
      (((b.placement? application unit).filter fun p => p.machineId? = some id).map
        (HostedUnit.mk application unit)).toList := by
  have hnodup : (b.unitsOn id).Nodup := by
    refine (b.pairwise_unitsOn id).imp ?_
    intro u v huv heq
    exact u.not_precedes_self (heq ▸ huv)
  refine eq_toList_of_mem_iff (hnodup.filter _) fun u => ?_
  simp only [List.mem_filter, mem_unitsOn, decide_eq_true_eq, Option.map_eq_some_iff,
    Option.filter_eq_some_iff]
  constructor
  · rintro ⟨h, rfl, rfl⟩
    exact ⟨_, h, rfl⟩
  · rintro ⟨p, h, rfl⟩
    exact ⟨h, rfl, rfl⟩

/-! ## The machines with units -/

theorem noneEmpty_unitsByMachine (b : Bundle) : NoneEmpty b.unitsByMachine :=
  NoneEmpty.foldl_addUnit (by simp [NoneEmpty, SortedMap.empty]) b.hostedUnits

theorem unitsOn_of_mem_entries {b : Bundle} {e : MachineId × List HostedUnit}
    (he : e ∈ b.unitsByMachine.entries) : b.unitsOn e.1 = e.2 := by
  rw [unitsOn, SortedMap.get?_eq_some_iff.mpr he, Option.getD_some]

/-- The machines with units are those that a directive names. -/
theorem contains_unitsByMachine_iff {b : Bundle} {id : MachineId} :
    b.unitsByMachine.contains id = true ↔ b.unitsOn id ≠ [] := by
  rw [unitsOn, SortedMap.contains]
  cases hget : b.unitsByMachine.get? id with
  | none => simp
  | some units =>
      have hne := b.noneEmpty_unitsByMachine _ (SortedMap.get?_eq_some_iff.mp hget)
      simpa using hne

/-- A machine has units exactly if a directive names it. -/
theorem contains_unitsByMachine_iff_exists {b : Bundle} {id : MachineId} :
    b.unitsByMachine.contains id = true ↔
      ∃ application unit p, b.placement? application unit = some p ∧ p.machineId? = some id := by
  rw [contains_unitsByMachine_iff]
  constructor
  · intro hne
    obtain ⟨u, hu⟩ := List.exists_mem_of_ne_nil _ hne
    exact ⟨_, _, _, mem_unitsOn.mp hu⟩
  · intro ⟨application, unit, p, h⟩
    have hu : ⟨application, unit, p⟩ ∈ b.unitsOn id := mem_unitsOn.mpr h
    exact List.ne_nil_of_mem hu

theorem sum_length_unitsByMachine (b : Bundle) :
    (b.unitsByMachine.values.map List.length).sum = b.hostedUnits.length := by
  have hperm : (allUnits b.unitsByMachine).Perm (allUnits .empty ++ b.hostedUnits) :=
    allUnits_foldl_addUnit_perm b.hostedUnits
  simpa [allUnits, List.length_flatMap, SortedMap.values, SortedMap.empty, Function.comp_def]
    using hperm.length_eq

end Bundle

end BundleCheck
