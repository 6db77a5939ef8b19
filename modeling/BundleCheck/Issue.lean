import BundleCheck.Bundle.Basic
import BundleCheck.ProviderMapping
import BundleCheck.Rule

/-! # Issues

An issue is one way in which a part of a bundle breaks a rule. -/

namespace BundleCheck

/-! ## Subjects -/

inductive Subject
  | key (name : String)
  | machine (id : MachineId)
  | application (name : String)
  | option (application name : String)
  | unit (application : String) (index : Nat)
  | relation (r : Relation)
  deriving DecidableEq

def Subject.render : Subject → String
  | .key name => s!"key '{name}'"
  | .machine id => s!"machine '{id.text}'"
  | .application name => s!"application '{name}'"
  | .option app name => s!"application '{app}' option '{name}'"
  | .unit app index => s!"unit '{app}/{index}'"
  | .relation r => s!"relation '{r.render}'"

/-! ## Issues -/

inductive Issue
  | unknownSection
  | constraintsInvalid (cause : ConstraintsError)
  | unknownConstraint (key : String)
  | machineUnused
  | charmInvalid (cause : CharmError)
  | unitsZero
  | unitsOverplaced (placed units : Nat)
  | mappingInvalid (cause : MappingError)
  | placementInvalid (cause : PlacementError)
  | targetUndeclared (application : String) (index : Nat)
  | targetMissing (application : String) (index units : Nat)
  | machineUndeclared (directive : String) (id : MachineId)
  | seriesMismatch (series : String) (id : MachineId) (machineSeries : String)
  | endpointInvalid (cause : EndpointError)
  | applicationUndeclared (name : String)
  | selfRelation
  | duplicateRelation
  deriving DecidableEq

namespace Issue

def rule : Issue → Rule
  | .unknownSection => .bundleUnknownKey
  | .constraintsInvalid _ => .constraintsInvalid
  | .unknownConstraint _ => .constraintsUnknownKey
  | .machineUnused => .machineUnused
  | .charmInvalid _ => .charmInvalid
  | .unitsZero => .unitsZero
  | .unitsOverplaced .. => .unitsOverplaced
  | .mappingInvalid _ => .optionMappingInvalid
  | .placementInvalid _ => .placementInvalid
  | .targetUndeclared .. => .placementUnknownUnit
  | .targetMissing .. => .placementUnknownUnit
  | .machineUndeclared .. => .placementUnknownMachine
  | .seriesMismatch .. => .seriesMismatch
  | .endpointInvalid _ => .relationInvalidEndpoint
  | .applicationUndeclared _ => .relationUnknownApplication
  | .selfRelation => .relationSelf
  | .duplicateRelation => .relationDuplicate

def message : Issue → String
  | .unknownSection => "not a bundle section, the orchestrator may reject it"
  | .constraintsInvalid cause => cause.message
  | .unknownConstraint key => s!"unknown constraint '{key}'"
  | .machineUnused => "declared but no application is placed on it"
  | .charmInvalid cause => cause.message
  | .unitsZero => "num_units must be at least 1; omit it for subordinate charms"
  | .unitsOverplaced placed units =>
      s!"{placed} placement directive(s) for {units} unit(s)"
  | .mappingInvalid cause => cause.message
  | .placementInvalid cause => cause.message
  | .targetUndeclared application index =>
      s!"placed next to '{application}/{index}', but '{application}' is not declared"
  | .targetMissing application index units =>
      s!"placed next to '{application}/{index}', but '{application}' has {units} unit(s)"
  | .machineUndeclared directive id =>
      s!"'{directive}' names machine '{id.text}', which is not declared"
  | .seriesMismatch series id machineSeries =>
      s!"series '{series}' on machine '{id.text}' which runs '{machineSeries}'"
  | .endpointInvalid cause => cause.message
  | .applicationUndeclared name => s!"application '{name}' is not declared"
  | .selfRelation => "both endpoints belong to the same application"
  | .duplicateRelation => "declared more than once"

end Issue

/-! ## Findings -/

/-- An issue with a part of a bundle, and how bad it is. -/
structure Finding where
  subject : Subject
  issue : Issue
  severity : Severity
  deriving DecidableEq

namespace Finding

def rule (f : Finding) : Rule :=
  f.issue.rule

def render (f : Finding) : String :=
  s!"{f.severity.name}[{f.rule.code}] {f.subject.render}: {f.issue.message}"

end Finding

/-- The findings for one bundle, in the order of the checks. -/
abbrev Report := List Finding

namespace Report

def errors (report : Report) : List Finding :=
  report.filter fun f => f.severity = .error

def warnings (report : Report) : List Finding :=
  report.filter fun f => f.severity = .warning

def hasErrors (report : Report) : Bool :=
  report.any fun f => f.severity = .error

def ofRule (report : Report) (rule : Rule) : List Finding :=
  report.filter fun f => f.rule = rule

end Report

end BundleCheck
