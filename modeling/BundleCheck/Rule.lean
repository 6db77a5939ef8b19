/-! # Rules

Every check has a rule with a stable code, by which it can be ignored. -/

namespace BundleCheck

inductive Severity
  | warning
  | error
  deriving DecidableEq

def Severity.name : Severity → String
  | .warning => "warning"
  | .error => "error"

inductive Rule
  | placementUnknownMachine
  | placementUnknownUnit
  | placementInvalid
  | relationUnknownApplication
  | relationInvalidEndpoint
  | relationDuplicate
  | relationSelf
  | unitsZero
  | unitsOverplaced
  | charmInvalid
  | constraintsInvalid
  | constraintsUnknownKey
  | optionMappingInvalid
  | machineUnused
  | seriesMismatch
  | bundleUnknownKey
  deriving DecidableEq

namespace Rule

def all : List Rule :=
  [.placementUnknownMachine, .placementUnknownUnit, .placementInvalid,
    .relationUnknownApplication, .relationInvalidEndpoint, .relationDuplicate, .relationSelf,
    .unitsZero, .unitsOverplaced, .charmInvalid, .constraintsInvalid, .constraintsUnknownKey,
    .optionMappingInvalid, .machineUnused, .seriesMismatch, .bundleUnknownKey]

def code : Rule → String
  | .placementUnknownMachine => "placement-unknown-machine"
  | .placementUnknownUnit => "placement-unknown-unit"
  | .placementInvalid => "placement-invalid"
  | .relationUnknownApplication => "relation-unknown-application"
  | .relationInvalidEndpoint => "relation-invalid-endpoint"
  | .relationDuplicate => "relation-duplicate"
  | .relationSelf => "relation-self"
  | .unitsZero => "units-zero"
  | .unitsOverplaced => "units-overplaced"
  | .charmInvalid => "charm-invalid"
  | .constraintsInvalid => "constraints-invalid"
  | .constraintsUnknownKey => "constraints-unknown-key"
  | .optionMappingInvalid => "option-mapping-invalid"
  | .machineUnused => "machine-unused"
  | .seriesMismatch => "series-mismatch"
  | .bundleUnknownKey => "bundle-unknown-key"

/-- The severity of a rule's findings, unless the check is strict. -/
def severity : Rule → Severity
  | .relationDuplicate => .warning
  | .relationSelf => .warning
  | .constraintsUnknownKey => .warning
  | .machineUnused => .warning
  | .seriesMismatch => .warning
  | .bundleUnknownKey => .warning
  | _ => .error

end Rule

end BundleCheck
