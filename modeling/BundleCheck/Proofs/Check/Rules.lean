import BundleCheck.Proofs.Check.Issues

/-! # Rules by part

Each part of a check reports the issues of a few rules, and no part but one those of a rule that
is not about constraints. -/

namespace BundleCheck

/-! ## Issues of some rules -/

def BreakOnly (rules : List Rule) (issues : List SubjectIssue) : Prop :=
  ∀ e ∈ issues, e.2.rule ∈ rules

namespace BreakOnly

variable {rules : List Rule}

@[simp] theorem nil : BreakOnly rules [] := by
  simp [BreakOnly]

@[simp] theorem cons {e : SubjectIssue} {issues : List SubjectIssue} :
    BreakOnly rules (e :: issues) ↔ e.2.rule ∈ rules ∧ BreakOnly rules issues := by
  simp [BreakOnly]

@[simp] theorem append {front back : List SubjectIssue} :
    BreakOnly rules (front ++ back) ↔ BreakOnly rules front ∧ BreakOnly rules back := by
  simp only [BreakOnly, List.mem_append, or_imp, forall_and]

@[simp] theorem map {α : Type*} {parts : List α} {f : α → SubjectIssue} :
    BreakOnly rules (parts.map f) ↔ ∀ part ∈ parts, (f part).2.rule ∈ rules := by
  simp [BreakOnly]

theorem flatMap {α : Type*} {parts : List α} {f : α → List SubjectIssue}
    (h : ∀ part ∈ parts, BreakOnly rules (f part)) : BreakOnly rules (parts.flatMap f) := by
  intro e he
  obtain ⟨part, hpart, he⟩ := List.mem_flatMap.mp he
  exact h part hpart e he

theorem mono {more : List Rule} {issues : List SubjectIssue} (h : BreakOnly rules issues)
    (hmore : rules ⊆ more) : BreakOnly more issues :=
  fun e he => hmore (h e he)

/-- No issue is one of another rule. -/
theorem filter_mem_eq_nil {issues : List SubjectIssue} (h : BreakOnly rules issues)
    {others : List Rule} (hothers : ∀ rule ∈ rules, rule ∉ others) :
    (issues.filter fun e => e.2.rule ∈ others) = [] := by
  rw [List.filter_eq_nil_iff]
  intro e he
  simpa using hothers e.2.rule (h e he)

theorem filter_eq_nil {issues : List SubjectIssue} (h : BreakOnly rules issues) {rule : Rule}
    (hrule : rule ∉ rules) : (issues.filter fun e => e.2.rule = rule) = [] := by
  have hothers : ∀ r ∈ rules, r ∉ [rule] := by
    intro r hr hmem
    exact hrule (List.mem_singleton.mp hmem ▸ hr)
  simpa using h.filter_mem_eq_nil hothers

end BreakOnly

namespace Bundle

/-! ## Sections, machines and applications -/

theorem breakOnly_sectionIssues (b : Bundle) : BreakOnly [.bundleUnknownKey] b.sectionIssues := by
  simp [sectionIssues, Issue.rule]

theorem breakOnly_constraintIssues (subject : Subject)
    (constraints? : Option (Except ConstraintsError Constraints)) :
    BreakOnly [.constraintsInvalid, .constraintsUnknownKey]
      (constraintIssues subject constraints?) := by
  rcases constraints? with _ | _ | constraints <;> simp [constraintIssues, Issue.rule]

theorem breakOnly_machineIssues (referenced : List MachineId) (id : MachineId) (a : Machine) :
    BreakOnly [.constraintsInvalid, .constraintsUnknownKey, .machineUnused]
      (machineIssues referenced id a) := by
  rw [machineIssues, BreakOnly.append]
  refine ⟨(breakOnly_constraintIssues _ _).mono (by simp), ?_⟩
  split <;> simp [Issue.rule]

theorem breakOnly_charmIssues (name : String) (a : Application) :
    BreakOnly [.charmInvalid] (charmIssues name a) := by
  rw [charmIssues]
  split <;> simp [Issue.rule]

theorem breakOnly_unitIssues (name : String) (a : Application) :
    BreakOnly [.unitsZero, .unitsOverplaced] (unitIssues name a) := by
  rw [unitIssues, BreakOnly.append]
  constructor <;> split <;> simp [Issue.rule]

theorem breakOnly_optionIssues (name key : String) (value : OptionValue) :
    BreakOnly [.optionMappingInvalid] (optionIssues name key value) := by
  rw [optionIssues]
  split
  · split <;> simp [Issue.rule]
  · simp

theorem breakOnly_applicationIssues (name : String) (a : Application) :
    BreakOnly [.charmInvalid, .unitsZero, .unitsOverplaced, .constraintsInvalid,
      .constraintsUnknownKey, .optionMappingInvalid] (applicationIssues name a) := by
  simp only [applicationIssues, BreakOnly.append]
  exact ⟨⟨⟨(breakOnly_charmIssues _ _).mono (by simp), (breakOnly_unitIssues _ _).mono (by simp)⟩,
    (breakOnly_constraintIssues _ _).mono (by simp)⟩,
    .flatMap fun e _ => (breakOnly_optionIssues _ _ _).mono (by simp)⟩

/-! ## Placements and relations -/

theorem rule_hostIssues {b : Bundle} {directive : String} {series : Option String}
    {p : Placement} {id : MachineId} {issue : Issue}
    (h : issue ∈ hostIssues b directive series p id) :
    issue.rule = .placementUnknownMachine ∨ issue.rule = .seriesMismatch := by
  unfold hostIssues at h
  split at h
  · simp_all [Issue.rule]
  · unfold seriesIssues at h
    split at h
    · split at h <;> simp_all [Issue.rule]
    · cases h
  · cases h

theorem rule_placementIssues {b : Bundle} {series : Option String} {directive : String}
    {parsed : Except PlacementError Placement} {issue : Issue}
    (h : issue ∈ placementIssues b series directive parsed) :
    issue.rule ∈ [Rule.placementInvalid, .placementUnknownUnit, .placementUnknownMachine,
      .seriesMismatch] := by
  unfold placementIssues at h
  split at h
  · simp_all [Issue.rule]
  · unfold targetIssues at h
    split at h
    · simp_all [Issue.rule]
    · split at h <;> simp_all [Issue.rule]
  next p _ =>
    cases hid : p.machineId? with
    | none => simp [hid] at h
    | some id =>
        rw [hid] at h
        rcases rule_hostIssues h with hrule | hrule <;> simp [hrule]

theorem rule_relationIssues {b : Bundle} {left right : Endpoint} {isRepeated : Bool}
    {issue : Issue} (h : issue ∈ relationIssues b left right isRepeated) :
    issue.rule = .relationUnknownApplication ∨ issue.rule = .relationSelf ∨
      isRepeated = true ∧ issue.rule = .relationDuplicate := by
  simp only [relationIssues, List.mem_append, List.mem_map] at h
  rcases h with (⟨name, -, rfl⟩ | h) | h
  · simp [Issue.rule]
  · split at h <;> simp_all [Issue.rule]
  · split at h <;> simp_all [Issue.rule]

theorem breakOnly_relationIssuesFrom (b : Bundle) (seen rs : List Relation) :
    BreakOnly [.relationInvalidEndpoint, .relationUnknownApplication, .relationSelf,
      .relationDuplicate] (relationIssuesFrom b seen rs) := by
  induction rs generalizing seen with
  | nil => simp [relationIssuesFrom]
  | cons r rest ih =>
      rw [relationIssuesFrom]
      split
      · simp [Issue.rule, ih]
      · simp only [BreakOnly.append, BreakOnly.map, ih, and_true]
        intro issue hissue
        rcases rule_relationIssues hissue with h | h | ⟨-, h⟩ <;> simp [h]

/-! ## All parts -/

theorem breakOnly_allMachineIssues (b : Bundle) :
    BreakOnly [.constraintsInvalid, .constraintsUnknownKey, .machineUnused] b.allMachineIssues :=
  .flatMap fun _ _ => breakOnly_machineIssues _ _ _

theorem breakOnly_allApplicationIssues (b : Bundle) :
    BreakOnly [.charmInvalid, .unitsZero, .unitsOverplaced, .constraintsInvalid,
      .constraintsUnknownKey, .optionMappingInvalid] b.allApplicationIssues :=
  .flatMap fun _ _ => breakOnly_applicationIssues _ _

theorem breakOnly_allPlacementIssues (b : Bundle) :
    BreakOnly [.placementInvalid, .placementUnknownUnit, .placementUnknownMachine,
      .seriesMismatch] b.allPlacementIssues :=
  .flatMap fun _ _ => .flatMap fun _ _ => BreakOnly.map.mpr fun _ => rule_placementIssues

/-- The issues of a rule that only machines break are those of the machines. -/
theorem filter_issues_machineUnused (b : Bundle) :
    (b.issues.filter fun e => e.2.rule = .machineUnused) =
      b.allMachineIssues.filter fun e => e.2.rule = .machineUnused := by
  simp only [issues, List.filter_append, allRelationIssues]
  rw [(breakOnly_sectionIssues b).filter_eq_nil (by decide),
    (breakOnly_allApplicationIssues b).filter_eq_nil (by decide),
    (breakOnly_allPlacementIssues b).filter_eq_nil (by decide),
    (breakOnly_relationIssuesFrom b [] b.relations).filter_eq_nil (by decide)]
  simp

end Bundle

end BundleCheck
