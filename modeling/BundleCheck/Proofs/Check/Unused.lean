import BundleCheck.Listing
import BundleCheck.Proofs.Bundle.Units
import BundleCheck.Proofs.Check.Rules
import BundleCheck.Proofs.Check.Settings

/-! # Unused machines

The check and the list of machines both go by the units on each machine. So the machines that the
check reports as unused are those that are listed as such. -/

namespace BundleCheck

/-! ## Lists -/

namespace Listing

theorem list_nil (heading none : String) : list heading none [] = none ++ "\n" := by
  simp [list, Text.unlines]

/-- The heading counts the parts, and their lines come below it. -/
theorem list_of_ne_nil (heading none : String) {parts : List (List String)} (h : parts ≠ []) :
    list heading none parts =
      s!"{heading} ({parts.length}):\n" ++ String.join (parts.flatten.map (· ++ "\n")) := by
  have hbreak : toString "):" ++ "\n" = toString "):\n" := rfl
  rw [list, if_neg (by simpa using h), Text.unlines, List.map_cons, String.join_cons, ← hbreak]
  simp only [String.append_assoc]

end Listing

namespace Bundle

/-! ## What the check reports -/

def unusedFinding (id : MachineId) : Finding :=
  ⟨.machine id, .machineUnused, .warning⟩

theorem filter_machineIssues (referenced : List MachineId) (id : MachineId) (a : Machine) :
    ((machineIssues referenced id a).filter fun e => e.2.rule = .machineUnused) =
      if referenced.contains id then [] else [(.machine id, .machineUnused)] := by
  rw [machineIssues, List.filter_append,
    (breakOnly_constraintIssues _ _).filter_eq_nil (by decide), List.nil_append]
  split <;> simp [Issue.rule]

theorem contains_referencedMachines (b : Bundle) (id : MachineId) :
    b.referencedMachines.contains id = b.unitsByMachine.contains id := by
  rw [Bool.eq_iff_iff, List.contains_iff_mem, SortedMap.contains_iff_mem_keys, referencedMachines]

theorem filter_allMachineIssues (b : Bundle) :
    (b.allMachineIssues.filter fun e => e.2.rule = .machineUnused) =
      (b.machines.keys.filter fun id => !b.unitsByMachine.contains id).map fun id =>
        (.machine id, .machineUnused) := by
  rw [allMachineIssues, List.filter_flatMap, SortedMap.keys]
  simp only [filter_machineIssues, contains_referencedMachines]
  induction b.machines.entries with
  | nil => rfl
  | cons e es ih =>
      rw [List.flatMap_cons, ih, List.map_cons, List.filter_cons]
      by_cases hused : b.unitsByMachine.contains e.1 = true <;> simp [hused]

/-- The machines without units are reported, each once. -/
theorem check_ofRule_machineUnused (b : Bundle) :
    (Config.check {} b).ofRule .machineUnused =
      (b.machines.keys.filter fun id => !b.unitsByMachine.contains id).map unusedFinding := by
  have hfilter : (Config.check {} b).ofRule .machineUnused =
      (b.issues.filter fun e => e.2.rule = .machineUnused).map fun e =>
        ⟨e.1, e.2, e.2.rule.severity⟩ := by
    rw [Config.check_default, Report.ofRule, List.filter_map]
    rfl
  rw [hfilter, filter_issues_machineUnused, filter_allMachineIssues, List.map_map]
  rfl

theorem unusedFinding_mem_check_iff {b : Bundle} {id : MachineId} :
    unusedFinding id ∈ Config.check {} b ↔ id ∈ b.machines.keys ∧ b.unitsOn id = [] := by
  have hrule : unusedFinding id ∈ Config.check {} b ↔
      unusedFinding id ∈ (Config.check {} b).ofRule .machineUnused := by
    simp [Report.ofRule, Finding.rule, unusedFinding, Issue.rule]
  have hinj : ∀ id', unusedFinding id' = unusedFinding id ↔ id' = id := by
    simp [unusedFinding]
  rw [hrule, check_ofRule_machineUnused]
  simp [hinj, ← Bool.not_eq_true, contains_unitsByMachine_iff]

/-! ## What the list shows -/

/-- What a list of machines says about a machine, by the findings of the check. -/
def usage (b : Bundle) (id : MachineId) : String :=
  if unusedFinding id ∈ Config.check {} b then "unused" else s!"{(b.unitsOn id).length} unit(s)"

theorem usage_eq_unused_iff {b : Bundle} {id : MachineId} :
    b.usage id = "unused" ↔ unusedFinding id ∈ Config.check {} b := by
  have hcount : s!"{(b.unitsOn id).length} unit(s)" ≠ "unused" := by
    intro h
    -- The two texts end differently.
    have hlast := congrArg (fun s : String => s.toList.getLast?) h
    simp [toString] at hlast
  unfold usage
  split
  next h => exact iff_of_true rfl h
  next h => exact iff_of_false hcount h

theorem hostedLabel_unitsOn {b : Bundle} {id : MachineId} (h : id ∈ b.machines.keys) :
    Listing.hostedLabel (b.unitsOn id) = b.usage id := by
  simp only [Listing.hostedLabel, usage, unusedFinding_mem_check_iff, h, true_and,
    List.isEmpty_iff]

/-- The list of machines says how each of them is used. -/
theorem machines_eq (b : Bundle) (selects : String → Bool) (detailed : Bool) :
    let selected := b.machines.entries.filter fun e => selects e.1.text
    Listing.machines b selects detailed =
      if selected = [] then "No machines found.\n"
      else s!"Machines ({selected.length}):\n" ++
        String.join ((selected.flatMap fun e => s!"  {e.1.text} {b.usage e.1}" ::
          if detailed then Listing.machineDetails e.2 (b.unitsOn e.1) else []).map
            (· ++ "\n")) := by
  intro selected
  have hparts : (selected.map fun e =>
      Listing.machineLines detailed e.1 e.2 ((b.unitsByMachine.get? e.1).getD [])) =
        selected.map fun e => s!"  {e.1.text} {b.usage e.1}" ::
          if detailed then Listing.machineDetails e.2 (b.unitsOn e.1) else [] := by
    refine List.map_congr_left fun e he => ?_
    have hkey : e.1 ∈ b.machines.keys := List.mem_map_of_mem (List.mem_of_mem_filter he)
    rw [← hostedLabel_unitsOn hkey]
    rfl
  change Listing.list _ _ (selected.map _) = _
  rw [hparts]
  by_cases hselected : selected = []
  · rw [if_pos hselected, hselected, List.map_nil, Listing.list_nil]
    rfl
  · rw [if_neg hselected, Listing.list_of_ne_nil _ _ (by simpa using hselected), List.length_map,
      List.flatMap_def]
    rfl

/-- Under each machine stand exactly the units whose directive names it, each once, and every unit
that a directive puts on a machine stands under that machine only. No machine has an empty list, and
units come by application and then by unit. There are as many units as there are directives that
name a machine, and the machines with units are those that are referenced. The check reports the
declared machines without units, each once, and these are the machines listed as unused. -/
theorem unitsByMachine_partition (b : Bundle) :
    (∀ application unit id,
        ((b.unitsOn id).filter fun u => u.application = application ∧ u.unit = unit) =
          (((b.placement? application unit).filter fun p => p.machineId? = some id).map
            (HostedUnit.mk application unit)).toList) ∧
      (∀ e ∈ b.unitsByMachine.entries,
        e.2 = b.unitsOn e.1 ∧ e.2 ≠ [] ∧ e.2.Pairwise HostedUnit.Precedes) ∧
      (b.unitsByMachine.values.map List.length).sum =
        (b.applications.values.map fun a => a.placements.countP namesMachine).sum ∧
      b.referencedMachines = b.unitsByMachine.keys ∧
      (∀ id, id ∈ b.referencedMachines ↔
        ∃ application unit p, b.placement? application unit = some p ∧ p.machineId? = some id) ∧
      (Config.check {} b).ofRule .machineUnused =
        (b.machines.keys.filter fun id => !b.unitsByMachine.contains id).map unusedFinding ∧
      (∀ selects detailed,
        let selected := b.machines.entries.filter fun e => selects e.1.text
        Listing.machines b selects detailed =
          if selected = [] then "No machines found.\n"
          else s!"Machines ({selected.length}):\n" ++
            String.join ((selected.flatMap fun e => s!"  {e.1.text} {b.usage e.1}" ::
              if detailed then Listing.machineDetails e.2 (b.unitsOn e.1) else []).map
                (· ++ "\n"))) ∧
      ∀ id, b.usage id = "unused" ↔ unusedFinding id ∈ Config.check {} b := by
  refine ⟨b.filter_unitsOn, fun e he => ?_, ?_, rfl, fun id => ?_, b.check_ofRule_machineUnused,
    fun selects detailed => ?_, fun id => usage_eq_unused_iff⟩
  · have hunits := unitsOn_of_mem_entries he
    refine ⟨hunits.symm, b.noneEmpty_unitsByMachine e he, ?_⟩
    rw [← hunits]
    exact b.pairwise_unitsOn e.1
  · rw [sum_length_unitsByMachine, length_hostedUnits]
  · rw [← contains_unitsByMachine_iff_exists, SortedMap.contains_iff_mem_keys, referencedMachines]
  · exact b.machines_eq selects detailed

end Bundle

end BundleCheck
