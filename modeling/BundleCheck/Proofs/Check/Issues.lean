import BundleCheck.Check
import Mathlib

/-! # The issues with a bundle

What is wrong with a bundle does not depend on the configuration, nor on what was recorded. Here
the issues are listed, part by part, and each check is shown to report those that are listed. -/

namespace BundleCheck

abbrev SubjectIssue := Subject × Issue

/-! ## Reporting a list of issues -/

namespace Checker

def reportAll (checker : Checker) (issues : List SubjectIssue) : Checker :=
  issues.foldl (fun checker e => checker.report e.1 e.2) checker

variable (checker : Checker)

@[simp] theorem reportAll_nil : checker.reportAll [] = checker :=
  rfl

@[simp] theorem reportAll_cons (e : SubjectIssue) (es : List SubjectIssue) :
    checker.reportAll (e :: es) = (checker.report e.1 e.2).reportAll es :=
  rfl

@[simp] theorem reportAll_append (front back : List SubjectIssue) :
    checker.reportAll (front ++ back) = (checker.reportAll front).reportAll back := by
  simp [reportAll]

theorem foldl_report {α : Type*} (parts : List α) (f : α → SubjectIssue) :
    parts.foldl (fun checker part => checker.report (f part).1 (f part).2) checker =
      checker.reportAll (parts.map f) := by
  simp [reportAll, List.foldl_map]

/-- A check of each part in turn reports the issues with all parts. -/
theorem foldl_eq_reportAll {α : Type*} {step : Checker → α → Checker}
    {f : α → List SubjectIssue} (h : ∀ checker part, step checker part = checker.reportAll (f part))
    (parts : List α) : parts.foldl step checker = checker.reportAll (parts.flatMap f) := by
  induction parts generalizing checker with
  | nil => rfl
  | cons part parts ih =>
      rw [List.foldl_cons, h, ih, List.flatMap_cons, reportAll_append]

end Checker

namespace Bundle

variable (checker : Checker)

/-! ## Sections and constraints -/

def sectionIssues (b : Bundle) : List SubjectIssue :=
  b.unknownKeys.map fun key => (.key key, .unknownSection)

theorem checkSections_eq (b : Bundle) :
    checker.checkSections b = checker.reportAll b.sectionIssues :=
  checker.foldl_report b.unknownKeys fun key => (.key key, .unknownSection)

def constraintIssues (subject : Subject) :
    Option (Except ConstraintsError Constraints) → List SubjectIssue
  | none => []
  | some (.error cause) => [(subject, .constraintsInvalid cause)]
  | some (.ok constraints) =>
      constraints.unknown.keys.map fun key => (subject, .unknownConstraint key)

theorem checkConstraints_eq (subject : Subject)
    (constraints? : Option (Except ConstraintsError Constraints)) :
    checker.checkConstraints subject constraints? =
      checker.reportAll (constraintIssues subject constraints?) := by
  rcases constraints? with _ | cause | constraints
  · rfl
  · rfl
  · exact checker.foldl_report constraints.unknown.keys fun key => (subject, .unknownConstraint key)

/-! ## Machines -/

def machineIssues (referenced : List MachineId) (id : MachineId) (m : Machine) :
    List SubjectIssue :=
  constraintIssues (.machine id) m.constraints? ++
    if referenced.contains id then [] else [(.machine id, .machineUnused)]

theorem checkMachine_eq (referenced : List MachineId) (id : MachineId) (m : Machine) :
    checker.checkMachine referenced id m =
      checker.reportAll (machineIssues referenced id m) := by
  rw [Checker.checkMachine, machineIssues, Checker.reportAll_append, checkConstraints_eq]
  by_cases h : id ∈ referenced <;> simp [h]

def allMachineIssues (b : Bundle) : List SubjectIssue :=
  b.machines.entries.flatMap fun e => machineIssues b.referencedMachines e.1 e.2

theorem checkMachines_eq (b : Bundle) :
    checker.checkMachines b = checker.reportAll b.allMachineIssues :=
  checker.foldl_eq_reportAll (fun checker e => checkMachine_eq checker _ e.1 e.2) _

/-! ## Applications -/

def charmIssues (name : String) (a : Application) : List SubjectIssue :=
  match a.charmRef with
  | .ok _ => []
  | .error cause => [(.application name, .charmInvalid cause)]

theorem checkCharm_eq (name : String) (a : Application) :
    checker.checkCharm name a = checker.reportAll (charmIssues name a) := by
  unfold Checker.checkCharm charmIssues
  cases a.charmRef <;> rfl

def unitIssues (name : String) (a : Application) : List SubjectIssue :=
  (if a.numUnits = some 0 then [(.application name, .unitsZero)] else []) ++
    if a.unitCount < a.placements.length then
      [(.application name, .unitsOverplaced a.placements.length a.unitCount)]
    else []

theorem checkUnits_eq (name : String) (a : Application) :
    checker.checkUnits name a = checker.reportAll (unitIssues name a) := by
  rw [Checker.checkUnits, unitIssues, Checker.reportAll_append]
  by_cases hzero : a.numUnits = some 0
  · by_cases hplaced : a.unitCount < a.placements.length <;> simp [hzero, hplaced]
  · by_cases hplaced : a.unitCount < a.placements.length <;> simp [hzero, hplaced]

def optionIssues (name key : String) (value : OptionValue) : List SubjectIssue :=
  match ProviderMapping.Kind.ofOption? key, value.text? with
  | some kind, some text =>
      match kind.check text with
      | .ok _ => []
      | .error cause => [(.option name key, .mappingInvalid cause)]
  | _, _ => []

theorem checkOption_eq (name key : String) (value : OptionValue) :
    checker.checkOption name key value = checker.reportAll (optionIssues name key value) := by
  unfold Checker.checkOption optionIssues
  cases ProviderMapping.Kind.ofOption? key with
  | none => rfl
  | some kind =>
      cases value.text? with
      | none => rfl
      | some text =>
          dsimp only
          cases kind.check text <;> rfl

def applicationIssues (name : String) (a : Application) : List SubjectIssue :=
  charmIssues name a ++ unitIssues name a ++
    constraintIssues (.application name) a.constraints? ++
    a.options.entries.flatMap fun e => optionIssues name e.1 e.2

theorem checkApplication_eq (name : String) (a : Application) :
    checker.checkApplication name a = checker.reportAll (applicationIssues name a) := by
  rw [Checker.checkApplication, checkCharm_eq, checkUnits_eq, checkConstraints_eq,
    Checker.foldl_eq_reportAll _ fun checker e => checkOption_eq checker name e.1 e.2]
  simp only [applicationIssues, Checker.reportAll_append]

def allApplicationIssues (b : Bundle) : List SubjectIssue :=
  b.applications.entries.flatMap fun e => applicationIssues e.1 e.2

theorem checkApplications_eq (b : Bundle) :
    checker.checkApplications b = checker.reportAll b.allApplicationIssues :=
  checker.foldl_eq_reportAll (fun checker e => checkApplication_eq checker e.1 e.2) _

/-! ## Placements -/

def targetIssues (b : Bundle) (application : String) (index : Nat) : List Issue :=
  match b.applications.get? application with
  | none => [.targetUndeclared application index]
  | some target =>
      if target.unitCount ≤ index then [.targetMissing application index target.unitCount]
      else []

theorem checkTarget_eq (b : Bundle) (subject : Subject) (application : String) (index : Nat) :
    checker.checkTarget b subject application index =
      checker.reportAll ((targetIssues b application index).map fun issue => (subject, issue)) := by
  unfold Checker.checkTarget targetIssues
  cases b.applications.get? application with
  | none => rfl
  | some target => by_cases h : target.unitCount ≤ index <;> simp [h]

def seriesIssues (m : Machine) (id : MachineId) (series : Option String) : List Issue :=
  match m.series, series with
  | some machineSeries, some series =>
      if machineSeries = series then [] else [.seriesMismatch series id machineSeries]
  | _, _ => []

theorem checkSeries_eq (subject : Subject) (m : Machine) (id : MachineId)
    (series : Option String) : checker.checkSeries subject m id series =
      checker.reportAll ((seriesIssues m id series).map fun issue => (subject, issue)) := by
  unfold Checker.checkSeries seriesIssues
  cases m.series with
  | none => rfl
  | some machineSeries =>
      cases series with
      | none => rfl
      | some series => by_cases h : machineSeries = series <;> simp [h]

def hostIssues (b : Bundle) (directive : String) (series : Option String)
    (placement : Placement) (id : MachineId) : List Issue :=
  match b.machines.get? id, placement with
  | none, _ => [.machineUndeclared directive id]
  | some m, .machine _ => seriesIssues m id series
  | some _, _ => []

theorem checkHost_eq (b : Bundle) (subject : Subject) (directive : String)
    (series : Option String) (placement : Placement) (id : MachineId) :
    checker.checkHost b subject directive series placement id = checker.reportAll
      ((hostIssues b directive series placement id).map fun issue => (subject, issue)) := by
  unfold Checker.checkHost hostIssues
  cases b.machines.get? id with
  | none => rfl
  | some m =>
      cases placement with
      | machine _ => exact checkSeries_eq checker subject m id series
      | _ => rfl

def placementIssues (b : Bundle) (series : Option String) (directive : String) :
    Except PlacementError Placement → List Issue
  | .error cause => [.placementInvalid cause]
  | .ok (.unit application index) => targetIssues b application index
  | .ok placement =>
      placement.machineId?.elim [] fun id => hostIssues b directive series placement id

theorem checkPlacement_eq (b : Bundle) (subject : Subject) (series : Option String)
    (directive : String) (placement? : Except PlacementError Placement) :
    checker.checkPlacement b subject series directive placement? = checker.reportAll
      ((placementIssues b series directive placement?).map fun issue => (subject, issue)) := by
  cases placement? with
  | error cause => rfl
  | ok placement =>
      cases placement with
      | unit application index => exact checkTarget_eq checker b subject application index
      | new => rfl
      | machine id => exact checkHost_eq checker b subject directive series (.machine id) id
      | container kind id? =>
          cases id? with
          | none => rfl
          | some id =>
              exact checkHost_eq checker b subject directive series (.container kind (some id)) id

def allPlacementIssues (b : Bundle) : List SubjectIssue :=
  b.applications.entries.flatMap fun e =>
    e.2.parsedPlacements.flatMap fun p =>
      (placementIssues b (e.2.effectiveSeries b.series) p.2.1 p.2.2).map fun issue =>
        (.unit e.1 p.1, issue)

theorem checkPlacements_eq (b : Bundle) :
    checker.checkPlacements b = checker.reportAll b.allPlacementIssues := by
  refine checker.foldl_eq_reportAll (fun checker e => ?_) _
  exact checker.foldl_eq_reportAll (fun checker p => checkPlacement_eq checker b _ _ p.2.1 p.2.2) _

/-! ## Relations -/

/-- Issues with a relation whose endpoints were read; `repeated` tells that an earlier one is
the same. -/
def relationIssues (b : Bundle) (left right : Endpoint) (isRepeated : Bool) : List Issue :=
  ((sides left.application right.application).filter fun name => !b.isRelatable name).map
      .applicationUndeclared ++
    (if left.application = right.application then [.selfRelation] else []) ++
    if isRepeated then [.duplicateRelation] else []

theorem checkSides_eq (b : Bundle) (r : Relation) (left right : Endpoint) :
    checker.checkSides b r left right = checker.reportAll
      ((relationIssues b left right false).map fun issue => (.relation r, issue)) := by
  rw [Checker.checkSides,
    Checker.foldl_report _ _ fun name => (.relation r, .applicationUndeclared name)]
  by_cases h : left.application = right.application <;> simp [relationIssues, h, Function.comp_def]

/-- Issues with relations; `seen` holds one of each that came before. -/
def relationIssuesFrom (b : Bundle) : List Relation → List Relation → List SubjectIssue
  | _, [] => []
  | seen, r :: rest =>
      match r.endpoints with
      | .error cause => (.relation r, .endpointInvalid cause) :: relationIssuesFrom b seen rest
      | .ok (left, right) =>
          let isRepeated := seen.any fun known => known.sameAs r
          (relationIssues b left right isRepeated).map (fun issue => (.relation r, issue)) ++
            relationIssuesFrom b (if isRepeated then seen else seen ++ [r]) rest

theorem checkRelationsFrom_eq (b : Bundle) (seen rs : List Relation) :
    checker.checkRelationsFrom b seen rs = checker.reportAll (relationIssuesFrom b seen rs) := by
  induction rs generalizing checker seen with
  | nil => rfl
  | cons r rest ih =>
      rw [Checker.checkRelationsFrom, relationIssuesFrom]
      cases r.endpoints with
      | error cause => exact ih _ seen
      | ok sides =>
          obtain ⟨left, right⟩ := sides
          simp only [checkSides_eq, ih]
          by_cases hrepeated : (seen.any fun known => known.sameAs r) = true
          · simp [hrepeated, relationIssues]
          · simp [hrepeated]

def allRelationIssues (b : Bundle) : List SubjectIssue :=
  relationIssuesFrom b [] b.relations

theorem checkRelations_eq (b : Bundle) :
    checker.checkRelations b = checker.reportAll b.allRelationIssues :=
  checkRelationsFrom_eq checker b [] b.relations

/-! ## All checks -/

def issues (b : Bundle) : List SubjectIssue :=
  b.sectionIssues ++ b.allMachineIssues ++ b.allApplicationIssues ++ b.allPlacementIssues ++
    b.allRelationIssues

end Bundle

/-! ## What is recorded -/

namespace Checker

variable {checker : Checker}

theorem findings_reportAll (issues : List SubjectIssue) :
    (checker.reportAll issues).findings = checker.findings ++
      (issues.filter fun e => !checker.ignored.contains e.2.rule).map
        fun e => ⟨e.1, e.2, checker.config.severity e.2.rule⟩ := by
  induction issues generalizing checker with
  | nil => simp
  | cons e es ih =>
      rw [reportAll_cons, ih]
      by_cases h : e.2.rule ∈ checker.ignored
      · simp [report, h]
      · simp [report, h]

end Checker

/-- The list of all rules is complete. -/
theorem Rule.mem_all (rule : Rule) : rule ∈ Rule.all := by
  cases rule <;> decide

/-- The check records the issues of the rules that are not ignored, in order. -/
theorem Config.check_eq (config : Config) (b : Bundle) :
    config.check b = (b.issues.filter fun e => !config.ignores e.2.rule).map
      fun e => ⟨e.1, e.2, config.severity e.2.rule⟩ := by
  have hrun : config.check b = ((Checker.start config).reportAll b.issues).findings := by
    simp only [check, Bundle.checkSections_eq, Bundle.checkMachines_eq,
      Bundle.checkApplications_eq, Bundle.checkPlacements_eq, Bundle.checkRelations_eq,
      Bundle.issues, Checker.reportAll_append]
  have hignored : ∀ rule : Rule,
      (Checker.start config).ignored.contains rule = config.ignores rule := by
    intro rule
    rw [Bool.eq_iff_iff, List.contains_iff_mem, Checker.start, List.mem_filter]
    exact and_iff_right rule.mem_all
  rw [hrun, Checker.findings_reportAll]
  simp only [hignored]
  rfl

end BundleCheck
