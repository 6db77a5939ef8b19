import BundleCheck.Proofs.Check.Issues
import BundleCheck.Proofs.SortedMap

/-! # Bundles without errors

The check reports no error exactly for the bundles all of whose texts can be read and all of whose
references lead to something that the bundle declares. -/

namespace BundleCheck

/-! ## What a bundle must satisfy -/

/-- The constraints can be read, if there are any. -/
def Machine.IsSound (a : Machine) : Prop :=
  ∀ text, a.constraints = some text → ∃ c, Constraints.parse text = .ok c

/-- The texts of an application can be read, and its units are not none and not fewer than are
placed. -/
structure Application.IsSound (a : Application) : Prop where
  charm : ∃ charm, CharmRef.parse a.charm = .ok charm
  units : a.numUnits ≠ some 0
  placed : a.placements.length ≤ a.numUnits.getD 0
  constraints : ∀ text, a.constraints = some text → ∃ c, Constraints.parse text = .ok c
  options : ∀ key text kind, (key, OptionValue.string text) ∈ a.options.entries →
    ProviderMapping.Kind.ofOption? key = some kind → kind.check text = .ok ()

namespace Bundle

/-- The machine and the unit that a placement names are declared. -/
structure Hosts (b : Bundle) (p : Placement) : Prop where
  machine : ∀ id, p.machineId? = some id → id ∈ b.machines.keys
  unit : ∀ application index, p = .unit application index →
    ∃ target, (application, target) ∈ b.applications.entries ∧ index < target.unitCount

/-- A relation may name the applications of the bundle and the text keys of its offers. -/
def Relates (b : Bundle) (name : String) : Prop :=
  name ∈ b.applications.keys ∨
    ∃ offers entries, b.extra.lookup offersKey = some offers ∧ offers.entries? = some entries ∧
      ∃ e ∈ entries, e.1.text? = some name

/-- Every part of a bundle can be read, and names only parts that are declared. -/
structure IsSound (b : Bundle) : Prop where
  machines : ∀ e ∈ b.machines.entries, e.2.IsSound
  applications : ∀ e ∈ b.applications.entries, e.2.IsSound
  placements : ∀ e ∈ b.applications.entries, ∀ directive ∈ e.2.placements,
    ∃ p, Placement.parse directive = .ok p ∧ b.Hosts p
  relations : ∀ r ∈ b.relations, ∃ left right, Endpoint.parse r.left = .ok left ∧
    Endpoint.parse r.right = .ok right ∧ b.Relates left.application ∧ b.Relates right.application

end Bundle

/-! ## Issues that are no errors -/

def OnlyWarnings (issues : List SubjectIssue) : Prop :=
  ∀ e ∈ issues, e.2.rule.severity = .warning

namespace OnlyWarnings

@[simp] theorem nil : OnlyWarnings [] := by
  simp [OnlyWarnings]

@[simp] theorem cons {e : SubjectIssue} {issues : List SubjectIssue} :
    OnlyWarnings (e :: issues) ↔ e.2.rule.severity = .warning ∧ OnlyWarnings issues := by
  simp [OnlyWarnings]

@[simp] theorem append {front back : List SubjectIssue} :
    OnlyWarnings (front ++ back) ↔ OnlyWarnings front ∧ OnlyWarnings back := by
  simp only [OnlyWarnings, List.mem_append, or_imp, forall_and]

@[simp] theorem flatMap {α : Type*} {parts : List α} {f : α → List SubjectIssue} :
    OnlyWarnings (parts.flatMap f) ↔ ∀ part ∈ parts, OnlyWarnings (f part) := by
  simp only [OnlyWarnings, List.mem_flatMap, forall_exists_index, and_imp]
  exact ⟨fun h part hp e he => h e part hp he, fun h e part hp he => h part hp e he⟩

@[simp] theorem map {α : Type*} {parts : List α} {f : α → SubjectIssue} :
    OnlyWarnings (parts.map f) ↔ ∀ part ∈ parts, (f part).2.rule.severity = .warning := by
  simp [OnlyWarnings]

end OnlyWarnings

/-- With the default settings nothing is ignored and nothing is promoted. -/
theorem hasErrors_check_default (b : Bundle) :
    (Config.check {} b).hasErrors = false ↔ OnlyWarnings b.issues := by
  have hkeep : (b.issues.filter fun e => !Config.ignores {} e.2.rule) = b.issues := by
    simp [Config.ignores]
  have hsev : ∀ s : Severity, ¬ s = .error ↔ s = .warning := by
    intro s
    cases s <;> simp
  simp [Report.hasErrors, Config.check_eq, hkeep, Config.severity, OnlyWarnings, hsev]

namespace Bundle

/-! ## The sections one by one -/

theorem onlyWarnings_sectionIssues (b : Bundle) : OnlyWarnings b.sectionIssues := by
  simp [sectionIssues, Issue.rule, Rule.severity]

/-- Constraints give no error exactly when they can be read: unknown ones are warnings. -/
theorem onlyWarnings_constraintIssues (subject : Subject) (text : Option String) :
    OnlyWarnings (constraintIssues subject (text.map Constraints.parse)) ↔
      ∀ s, text = some s → ∃ c, Constraints.parse s = .ok c := by
  cases text with
  | none => simp [constraintIssues]
  | some s =>
      cases hs : Constraints.parse s with
      | error cause => simp [constraintIssues, hs, Issue.rule, Rule.severity]
      | ok c => simp [constraintIssues, hs, Issue.rule, Rule.severity]

theorem onlyWarnings_machineIssues (referenced : List MachineId) (id : MachineId) (a : Machine) :
    OnlyWarnings (machineIssues referenced id a) ↔ a.IsSound := by
  have hunused : OnlyWarnings
      (if referenced.contains id then [] else [(.machine id, .machineUnused)]) := by
    split <;> simp [Issue.rule, Rule.severity]
  rw [machineIssues, OnlyWarnings.append, Machine.constraints?, onlyWarnings_constraintIssues,
    Machine.IsSound]
  exact and_iff_left hunused

theorem onlyWarnings_charmIssues (name : String) (a : Application) :
    OnlyWarnings (charmIssues name a) ↔ ∃ charm, CharmRef.parse a.charm = .ok charm := by
  rw [charmIssues, Application.charmRef]
  cases CharmRef.parse a.charm <;> simp [Issue.rule, Rule.severity]

theorem onlyWarnings_unitIssues (name : String) (a : Application) :
    OnlyWarnings (unitIssues name a) ↔
      a.numUnits ≠ some 0 ∧ a.placements.length ≤ a.numUnits.getD 0 := by
  rw [unitIssues, OnlyWarnings.append, Application.unitCount, ← not_lt]
  by_cases hzero : a.numUnits = some 0 <;>
    by_cases hplaced : a.numUnits.getD 0 < a.placements.length <;>
      simp [hzero, hplaced, Issue.rule, Rule.severity]

theorem onlyWarnings_optionIssues (name key : String) (value : OptionValue) :
    OnlyWarnings (optionIssues name key value) ↔
      ∀ text kind, value = .string text → ProviderMapping.Kind.ofOption? key = some kind →
        kind.check text = .ok () := by
  cases hkind : ProviderMapping.Kind.ofOption? key with
  | none => simp [optionIssues, hkind]
  | some kind =>
      cases value with
      | string text =>
          cases hcheck : kind.check text with
          | error cause => simp [optionIssues, hkind, OptionValue.text?, hcheck, Issue.rule,
              Rule.severity]
          | ok done => simp [optionIssues, hkind, OptionValue.text?, hcheck]
      | _ => simp [optionIssues, hkind, OptionValue.text?]

theorem onlyWarnings_applicationIssues (name : String) (a : Application) :
    OnlyWarnings (applicationIssues name a) ↔ a.IsSound := by
  simp only [applicationIssues, OnlyWarnings.append, OnlyWarnings.flatMap,
    Application.constraints?, onlyWarnings_charmIssues, onlyWarnings_unitIssues,
    onlyWarnings_constraintIssues, onlyWarnings_optionIssues]
  constructor
  · rintro ⟨⟨⟨hcharm, hunits, hplaced⟩, hconstraints⟩, hoptions⟩
    exact ⟨hcharm, hunits, hplaced, hconstraints,
      fun key text kind hmem => hoptions (key, .string text) hmem text kind rfl⟩
  · rintro ⟨hcharm, hunits, hplaced, hconstraints, hoptions⟩
    refine ⟨⟨⟨hcharm, hunits, hplaced⟩, hconstraints⟩, ?_⟩
    rintro ⟨key, value⟩ hmem text kind rfl hkind
    exact hoptions key text kind hmem hkind

/-! ## Placements -/

theorem hosts_unit (b : Bundle) (application : String) (index : Nat) :
    b.Hosts (.unit application index) ↔
      ∃ target, b.applications.get? application = some target ∧ index < target.unitCount := by
  simp only [SortedMap.get?_eq_some_iff]
  constructor
  · intro h
    exact h.unit application index rfl
  · intro h
    refine ⟨by simp [Placement.machineId?], ?_⟩
    rintro _ _ ⟨⟩
    exact h

/-- Placements that are no units name at most a machine. -/
theorem hosts_of_ne_unit (b : Bundle) {p : Placement}
    (hp : ∀ application index, p ≠ .unit application index) :
    b.Hosts p ↔ ∀ id, p.machineId? = some id → id ∈ b.machines.keys :=
  ⟨fun h => h.machine, fun h => ⟨h, fun application index he => absurd he (hp application index)⟩⟩

theorem targetIssues_warnings (b : Bundle) (application : String) (index : Nat) :
    (∀ issue ∈ targetIssues b application index, issue.rule.severity = .warning) ↔
      b.Hosts (.unit application index) := by
  rw [hosts_unit, targetIssues]
  cases b.applications.get? application with
  | none => simp [Issue.rule, Rule.severity]
  | some target =>
      by_cases hindex : target.unitCount ≤ index
      · simp [hindex, Issue.rule, Rule.severity]
      · simp [hindex, Nat.lt_of_not_le hindex]

/-- A machine of another series is a warning only. -/
theorem seriesIssues_warnings (a : Machine) (id : MachineId) (series : Option String) :
    ∀ issue ∈ seriesIssues a id series, issue.rule.severity = .warning := by
  intro issue hissue
  unfold seriesIssues at hissue
  split at hissue
  · split at hissue
    · simp at hissue
    · simp only [List.mem_singleton] at hissue
      simp [hissue, Issue.rule, Rule.severity]
  · simp at hissue

theorem hostIssues_warnings (b : Bundle) (directive : String) (series : Option String)
    (p : Placement) (id : MachineId) :
    (∀ issue ∈ hostIssues b directive series p id, issue.rule.severity = .warning) ↔
      id ∈ b.machines.keys := by
  rw [← SortedMap.contains_iff_mem_keys, SortedMap.contains]
  unfold hostIssues
  cases hget : b.machines.get? id with
  | none => simp [Issue.rule, Rule.severity]
  | some a =>
      cases p with
      | machine _ => simpa using seriesIssues_warnings a id series
      | _ => simp

/-- A directive gives no error exactly when it can be read and leads to a declared place. -/
theorem placementIssues_warnings (b : Bundle) (series : Option String) (directive : String)
    (parsed : Except PlacementError Placement) :
    (∀ issue ∈ placementIssues b series directive parsed, issue.rule.severity = .warning) ↔
      ∃ p, parsed = .ok p ∧ b.Hosts p := by
  cases parsed with
  | error cause => simp [placementIssues, Issue.rule, Rule.severity]
  | ok p =>
      simp only [Except.ok.injEq, exists_eq_left']
      cases p with
      | unit application index => exact targetIssues_warnings b application index
      | new => simp [placementIssues, hosts_of_ne_unit, Placement.machineId?]
      | machine id =>
          simpa [placementIssues, hosts_of_ne_unit, Placement.machineId?] using
            hostIssues_warnings b directive series (.machine id) id
      | container kind id? =>
          cases id? with
          | none => simp [placementIssues, hosts_of_ne_unit, Placement.machineId?]
          | some id =>
              simpa [placementIssues, hosts_of_ne_unit, Placement.machineId?] using
                hostIssues_warnings b directive series (.container kind (some id)) id

theorem forall_mem_parsedPlacements (a : Application)
    (P : String → Except PlacementError Placement → Prop) :
    (∀ p ∈ a.parsedPlacements, P p.2.1 p.2.2) ↔
      ∀ directive ∈ a.placements, P directive (Placement.parse directive) := by
  simp only [Application.parsedPlacements, List.mem_mapIdx, forall_exists_index]
  constructor
  · intro h directive hmem
    obtain ⟨i, hi, rfl⟩ := List.getElem_of_mem hmem
    exact h _ i hi rfl
  · rintro h _ i hi rfl
    exact h _ (List.getElem_mem hi)

theorem onlyWarnings_allPlacementIssues (b : Bundle) :
    OnlyWarnings b.allPlacementIssues ↔
      ∀ e ∈ b.applications.entries, ∀ directive ∈ e.2.placements,
        ∃ p, Placement.parse directive = .ok p ∧ b.Hosts p := by
  simp only [allPlacementIssues, OnlyWarnings.flatMap, OnlyWarnings.map, placementIssues_warnings]
  refine forall₂_congr fun e _ => ?_
  exact forall_mem_parsedPlacements e.2 fun _ parsed => ∃ p, parsed = .ok p ∧ b.Hosts p

/-! ## Relations -/

theorem contains_offers_iff (b : Bundle) (name : String) :
    b.offers.contains name = true ↔
      ∃ offers entries, b.extra.lookup offersKey = some offers ∧
        offers.entries? = some entries ∧ ∃ e ∈ entries, e.1.text? = some name := by
  rw [List.contains_iff_mem, offers, List.mem_filterMap]
  cases b.extra.lookup offersKey with
  | none => simp
  | some offers => cases hentries : offers.entries? <;> simp [hentries]

theorem isRelatable_iff (b : Bundle) (name : String) :
    b.isRelatable name = true ↔ b.Relates name := by
  rw [isRelatable, Bool.or_eq_true, SortedMap.contains_iff_mem_keys, contains_offers_iff, Relates]

theorem mem_sides {left right name : String} :
    name ∈ sides left right ↔ name = left ∨ name = right := by
  unfold sides
  split
  next h => simp [h]
  next h =>
    split
    · simp
    · simp [or_comm]

/-- Relations of an application with itself, and repeated ones, are warnings only. -/
theorem relationIssues_warnings (b : Bundle) (left right : Endpoint) (isRepeated : Bool) :
    (∀ issue ∈ relationIssues b left right isRepeated, issue.rule.severity = .warning) ↔
      b.Relates left.application ∧ b.Relates right.application := by
  have hself : ∀ issue ∈ (if left.application = right.application then [Issue.selfRelation]
      else []), issue.rule.severity = .warning := by
    split <;> simp [Issue.rule, Rule.severity]
  have hrepeated : ∀ issue ∈ (if isRepeated then [Issue.duplicateRelation] else []),
      issue.rule.severity = .warning := by
    split <;> simp [Issue.rule, Rule.severity]
  have hunknown : (∀ issue ∈ ((sides left.application right.application).filter fun name =>
        !b.isRelatable name).map Issue.applicationUndeclared, issue.rule.severity = .warning) ↔
      b.Relates left.application ∧ b.Relates right.application := by
    rw [List.forall_mem_map, ← isRelatable_iff, ← isRelatable_iff]
    simp [mem_sides, Issue.rule, Rule.severity, or_imp, forall_and]
  simp only [relationIssues, List.mem_append, or_imp, forall_and, hunknown]
  exact ⟨fun h => h.1.1, fun h => ⟨⟨h, hself⟩, hrepeated⟩⟩

/-- What came before decides only whether a relation is repeated, which is no error. -/
theorem onlyWarnings_relationIssuesFrom (b : Bundle) (seen relations : List Relation) :
    OnlyWarnings (relationIssuesFrom b seen relations) ↔
      ∀ r ∈ relations, ∃ left right, Endpoint.parse r.left = .ok left ∧
        Endpoint.parse r.right = .ok right ∧ b.Relates left.application ∧
        b.Relates right.application := by
  induction relations generalizing seen with
  | nil => simp [relationIssuesFrom]
  | cons r rest ih =>
      rw [relationIssuesFrom, List.forall_mem_cons, Relation.endpoints]
      cases Endpoint.parse r.left with
      | error cause => simp [bind, Except.bind, Issue.rule, Rule.severity]
      | ok left =>
          cases Endpoint.parse r.right with
          | error cause => simp [bind, Except.bind, Issue.rule, Rule.severity]
          | ok right =>
              simp only [bind, Except.bind, pure, Except.pure, OnlyWarnings.append,
                OnlyWarnings.map, relationIssues_warnings, ih]
              simp

/-! ## The whole bundle -/

/-- The check of a bundle with the default settings reports no error if and only if every text in
the bundle can be read and every reference leads to something that is declared. -/
theorem hasErrors_check_eq_false_iff (b : Bundle) :
    (Config.check {} b).hasErrors = false ↔ b.IsSound := by
  rw [hasErrors_check_default]
  simp only [issues, OnlyWarnings.append, allMachineIssues, allApplicationIssues,
    allRelationIssues, OnlyWarnings.flatMap, onlyWarnings_machineIssues,
    onlyWarnings_applicationIssues, onlyWarnings_allPlacementIssues,
    onlyWarnings_relationIssuesFrom]
  constructor
  · rintro ⟨⟨⟨⟨-, hmachines⟩, happlications⟩, hplacements⟩, hrelations⟩
    exact ⟨hmachines, happlications, hplacements, hrelations⟩
  · rintro ⟨hmachines, happlications, hplacements, hrelations⟩
    exact ⟨⟨⟨⟨onlyWarnings_sectionIssues b, hmachines⟩, happlications⟩, hplacements⟩, hrelations⟩

end Bundle

end BundleCheck
