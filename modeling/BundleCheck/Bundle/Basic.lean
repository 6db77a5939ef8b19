import BundleCheck.Charm
import BundleCheck.Constraints
import BundleCheck.Double.Shortest
import BundleCheck.Placement
import BundleCheck.Relation
import BundleCheck.Yaml.Value

/-! # Charm bundles

A bundle describes a deployment: machines to provision, applications to run on them, and
relations between the applications. -/

namespace BundleCheck

open Yaml (Value Mapping)

/-! ## Options -/

inductive OptionValue
  | bool (b : Bool)
  | int (n : Int)
  | float (x : Double)
  | string (s : String)
  deriving DecidableEq

namespace OptionValue

def text? : OptionValue → Option String
  | .string s => some s
  | _ => none

def bool? : OptionValue → Option Bool
  | .bool b => some b
  | _ => none

/-- The text of a value; numbers never have an exponent. -/
def render : OptionValue → String
  | .bool b => if b then "true" else "false"
  | .int n => toString n
  | .float x => String.ofList (Double.plain.text x)
  | .string s => s

end OptionValue

/-! ## Machines and applications -/

structure Machine where
  constraints : Option String := none
  series : Option String := none
  annotations : SortedMap String OptionValue := .empty
  deriving DecidableEq

namespace Machine

def constraints? (m : Machine) : Option (Except ConstraintsError Constraints) :=
  m.constraints.map Constraints.parse

end Machine

/-- An application. Subordinate charms have no units of their own. -/
structure Application where
  charm : String
  series : Option String := none
  channel : Option String := none
  revision : Option Nat := none
  numUnits : Option Nat := none
  options : SortedMap String OptionValue := .empty
  placements : List String := []
  constraints : Option String := none
  bindings : SortedMap String String := .empty
  expose : Bool := false
  annotations : SortedMap String OptionValue := .empty
  deriving DecidableEq

namespace Application

def unitCount (a : Application) : Nat :=
  a.numUnits.getD 0

def isSubordinate (a : Application) : Bool :=
  a.numUnits.isNone

def charmRef (a : Application) : Except CharmError CharmRef :=
  CharmRef.parse a.charm

/-- Each placement directive, read, with its unit. -/
def parsedPlacements (a : Application) : List (Nat × String × Except PlacementError Placement) :=
  a.placements.mapIdx fun unit directive => (unit, directive, Placement.parse directive)

def constraints? (a : Application) : Option (Except ConstraintsError Constraints) :=
  a.constraints.map Constraints.parse

/-- The application's series, or else the bundle's. -/
def effectiveSeries (a : Application) (bundleSeries : Option String) : Option String :=
  a.series <|> bundleSeries

end Application

/-! ## Bundles -/

/-- The section that lists consumed offers. -/
def offersKey : String := "saas"

/-- A bundle. Sections without a meaning of their own are kept as they are, by name. -/
structure Bundle where
  name : Option String := none
  description : Option String := none
  series : Option String := none
  vars : Mapping := []
  machines : SortedMap MachineId Machine := .empty
  applications : SortedMap String Application := .empty
  relations : List Relation := []
  extra : List (String × Value) := []

/-- A unit on a declared machine. -/
structure HostedUnit where
  application : String
  unit : Nat
  placement : Placement
  deriving DecidableEq

def HostedUnit.name (u : HostedUnit) : String :=
  s!"{u.application}/{u.unit}"

namespace Bundle

/-! ### Sections -/

/-- The names of the sections that the orchestrator does not know. -/
def unknownKeys (b : Bundle) : List String :=
  (b.extra.map (·.1)).filter (· != offersKey)

def offers (b : Bundle) : List String :=
  (((b.extra.lookup offersKey).bind Value.entries?).getD []).filterMap fun e => e.1.text?

/-- The name of an application or of a consumed offer. -/
def isRelatable (b : Bundle) (name : String) : Bool :=
  b.applications.contains name || b.offers.contains name

def relationsOf (b : Bundle) (application : String) : List Relation :=
  b.relations.filter fun r => r.involves application

/-! ### Units -/

/-- The units that name a machine, by application and then by unit. -/
def hostedUnits (b : Bundle) : List (MachineId × HostedUnit) :=
  b.applications.entries.flatMap fun e =>
    e.2.parsedPlacements.filterMap fun p =>
      match p.2.2 with
      | .ok placement => placement.machineId?.map fun id => (id, ⟨e.1, p.1, placement⟩)
      | .error _ => none

/-- Puts a unit behind the others of its machine. -/
def addUnit (units : SortedMap MachineId (List HostedUnit)) (u : MachineId × HostedUnit) :
    SortedMap MachineId (List HostedUnit) :=
  units.insert u.1 ((units.get? u.1).getD [] ++ [u.2])

def unitsByMachine (b : Bundle) : SortedMap MachineId (List HostedUnit) :=
  b.hostedUnits.foldl addUnit .empty

def referencedMachines (b : Bundle) : List MachineId :=
  b.unitsByMachine.keys

def unitCount (b : Bundle) : Nat :=
  b.applications.values.foldr (fun a n => a.unitCount + n) 0

end Bundle

end BundleCheck
