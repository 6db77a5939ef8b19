import BundleCheck.Config
import BundleCheck.Issue

/-! # Checking bundles

The checks go through a bundle part by part and report every issue to a checker, which records
those whose rule is not ignored. -/

namespace BundleCheck

/-! ## Recording findings -/

def Config.severity (config : Config) (rule : Rule) : Severity :=
  if config.strict then .error else rule.severity

/-- What was found so far, under a configuration that ignores some rules. -/
structure Checker where
  config : Config
  ignored : List Rule
  findings : Report := []

namespace Checker

def start (config : Config) : Checker where
  config
  ignored := Rule.all.filter config.ignores

/-- Records an issue with a part of a bundle, unless its rule is ignored. -/
def report (checker : Checker) (subject : Subject) (issue : Issue) : Checker :=
  if checker.ignored.contains issue.rule then checker
  else
    { checker with
      findings := checker.findings ++ [⟨subject, issue, checker.config.severity issue.rule⟩] }

/-! ## Sections and constraints -/

/-- Sections that the orchestrator does not know. -/
def checkSections (checker : Checker) (b : Bundle) : Checker :=
  b.unknownKeys.foldl (fun checker key => checker.report (.key key) .unknownSection) checker

def checkConstraints (checker : Checker) (subject : Subject) :
    Option (Except ConstraintsError Constraints) → Checker
  | none => checker
  | some (.error cause) => checker.report subject (.constraintsInvalid cause)
  | some (.ok constraints) =>
      constraints.unknown.keys.foldl
        (fun checker key => checker.report subject (.unknownConstraint key)) checker

/-! ## Machines -/

/-- A machine; unused ones are those that no directive names. -/
def checkMachine (checker : Checker) (referenced : List MachineId) (id : MachineId)
    (m : Machine) : Checker :=
  let checker := checker.checkConstraints (.machine id) m.constraints?
  if referenced.contains id then checker else checker.report (.machine id) .machineUnused

def checkMachines (checker : Checker) (b : Bundle) : Checker :=
  b.machines.entries.foldl
    (fun checker e => checker.checkMachine b.referencedMachines e.1 e.2) checker

/-! ## Applications -/

def checkCharm (checker : Checker) (name : String) (a : Application) : Checker :=
  match a.charmRef with
  | .ok _ => checker
  | .error cause => checker.report (.application name) (.charmInvalid cause)

/-- No units at all, or fewer than are placed. -/
def checkUnits (checker : Checker) (name : String) (a : Application) : Checker :=
  let checker :=
    if a.numUnits = some 0 then checker.report (.application name) .unitsZero else checker
  if a.unitCount < a.placements.length then
    checker.report (.application name) (.unitsOverplaced a.placements.length a.unitCount)
  else checker

/-- An option for provider networks whose text cannot be read. -/
def checkOption (checker : Checker) (name key : String) (value : OptionValue) : Checker :=
  match ProviderMapping.Kind.ofOption? key, value.text? with
  | some kind, some text =>
      match kind.check text with
      | .ok _ => checker
      | .error cause => checker.report (.option name key) (.mappingInvalid cause)
  | _, _ => checker

def checkApplication (checker : Checker) (name : String) (a : Application) : Checker :=
  let checker := checker.checkCharm name a
  let checker := checker.checkUnits name a
  let checker := checker.checkConstraints (.application name) a.constraints?
  a.options.entries.foldl (fun checker e => checker.checkOption name e.1 e.2) checker

def checkApplications (checker : Checker) (b : Bundle) : Checker :=
  b.applications.entries.foldl (fun checker e => checker.checkApplication e.1 e.2) checker

/-! ## Placements -/

/-- A place next to a unit that does not exist. -/
def checkTarget (checker : Checker) (b : Bundle) (subject : Subject) (application : String)
    (index : Nat) : Checker :=
  match b.applications.get? application with
  | none => checker.report subject (.targetUndeclared application index)
  | some target =>
      if target.unitCount ≤ index then
        checker.report subject (.targetMissing application index target.unitCount)
      else checker

def checkSeries (checker : Checker) (subject : Subject) (m : Machine) (id : MachineId)
    (series : Option String) : Checker :=
  match m.series, series with
  | some machineSeries, some series =>
      if machineSeries = series then checker
      else checker.report subject (.seriesMismatch series id machineSeries)
  | _, _ => checker

/-- A machine that is not declared, or of another series. In containers the series does not
matter. -/
def checkHost (checker : Checker) (b : Bundle) (subject : Subject) (directive : String)
    (series : Option String) (placement : Placement) (id : MachineId) : Checker :=
  match b.machines.get? id, placement with
  | none, _ => checker.report subject (.machineUndeclared directive id)
  | some m, .machine _ => checker.checkSeries subject m id series
  | some _, _ => checker

def checkPlacement (checker : Checker) (b : Bundle) (subject : Subject)
    (series : Option String) (directive : String) :
    Except PlacementError Placement → Checker
  | .error cause => checker.report subject (.placementInvalid cause)
  | .ok (.unit application index) => checker.checkTarget b subject application index
  | .ok placement =>
      match placement.machineId? with
      | none => checker
      | some id => checker.checkHost b subject directive series placement id

def checkApplicationPlacements (checker : Checker) (b : Bundle) (name : String)
    (a : Application) : Checker :=
  a.parsedPlacements.foldl
    (fun checker p =>
      checker.checkPlacement b (.unit name p.1) (a.effectiveSeries b.series) p.2.1 p.2.2)
    checker

def checkPlacements (checker : Checker) (b : Bundle) : Checker :=
  b.applications.entries.foldl
    (fun checker e => checker.checkApplicationPlacements b e.1 e.2) checker

end Checker

/-! ## Relations -/

/-- The applications of two endpoints, in order and each once. -/
def Bundle.sides (left right : String) : List String :=
  if left = right then [left] else if left < right then [left, right] else [right, left]

namespace Checker

def checkSides (checker : Checker) (b : Bundle) (r : Relation) (left right : Endpoint) :
    Checker :=
  let missing :=
    (Bundle.sides left.application right.application).filter fun name => !b.isRelatable name
  let checker := missing.foldl
    (fun checker name => checker.report (.relation r) (.applicationUndeclared name)) checker
  if left.application = right.application then checker.report (.relation r) .selfRelation
  else checker

/-- Relations in order; `seen` holds one of each that came before. -/
def checkRelationsFrom (checker : Checker) (b : Bundle) (seen : List Relation) :
    List Relation → Checker
  | [] => checker
  | r :: rest =>
      match r.endpoints with
      | .error cause =>
          (checker.report (.relation r) (.endpointInvalid cause)).checkRelationsFrom b seen rest
      | .ok (left, right) =>
          let checker := checker.checkSides b r left right
          if seen.any fun known => known.sameAs r then
            (checker.report (.relation r) .duplicateRelation).checkRelationsFrom b seen rest
          else checker.checkRelationsFrom b (seen ++ [r]) rest

def checkRelations (checker : Checker) (b : Bundle) : Checker :=
  checker.checkRelationsFrom b [] b.relations

end Checker

/-! ## All checks -/

def Config.check (config : Config) (b : Bundle) : Report :=
  let checker := (Checker.start config).checkSections b
  let checker := checker.checkMachines b
  let checker := checker.checkApplications b
  let checker := checker.checkPlacements b
  (checker.checkRelations b).findings

end BundleCheck
