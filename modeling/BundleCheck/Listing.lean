import BundleCheck.Bundle.Basic
import BundleCheck.Glob
import BundleCheck.Text.Lines

/-! # Lists of parts

One line for each application, machine or relation of a bundle, with more lines below it if
details are wanted. -/

namespace BundleCheck

inductive PartKind
  | machines
  | applications
  | relations
  deriving DecidableEq

namespace Listing

/-! ## Lines -/

/-- A labelled line, if there is a value. -/
def field (indent label : String) (value : Option String) : List String :=
  (value.map fun v => s!"{indent}{label} {v}").toList

def unitsLabel (a : Application) : String :=
  if a.isSubordinate then "subordinate" else s!"{a.unitCount} unit(s)"

def applicationDetails (a : Application) : List String :=
  field "    " "Channel:" a.channel ++ field "    " "Series:" a.series ++
    field "    " "Constraints:" a.constraints ++
    (if a.placements.isEmpty then [] else ["    To: " ++ ", ".intercalate a.placements]) ++
    if a.options.isEmpty then [] else [s!"    Options: {a.options.size}"]

def applicationLines (detailed : Bool) (name : String) (a : Application) : List String :=
  s!"  {name} {a.charm} ({unitsLabel a})" :: if detailed then applicationDetails a else []

def hostedLabel (units : List HostedUnit) : String :=
  if units.isEmpty then "unused" else s!"{units.length} unit(s)"

def machineDetails (m : Machine) (units : List HostedUnit) : List String :=
  field "    " "Series:" m.series ++ field "    " "Constraints:" m.constraints ++
    units.map fun u => s!"    {u.name} {u.placement.render}"

def machineLines (detailed : Bool) (id : MachineId) (m : Machine) (units : List HostedUnit) :
    List String :=
  s!"  {id.text} {hostedLabel units}" :: if detailed then machineDetails m units else []

def relationLine (r : Relation) : String :=
  s!"  {r.left} <-> {r.right}"

/-! ## Lists -/

/-- A heading and the lines of the parts, or a note that there are none. -/
def list (heading none : String) (parts : List (List String)) : String :=
  if parts.isEmpty then Text.unlines [none]
  else Text.unlines (s!"{heading} ({parts.length}):" :: parts.flatten)

def applications (b : Bundle) (selects : String → Bool) (detailed : Bool) : String :=
  let selected := b.applications.entries.filter fun e => selects e.1
  list "Applications" "No applications found." <|
    selected.map fun e => applicationLines detailed e.1 e.2

def machines (b : Bundle) (selects : String → Bool) (detailed : Bool) : String :=
  let selected := b.machines.entries.filter fun e => selects e.1.text
  list "Machines" "No machines found." <|
    selected.map fun e =>
      machineLines detailed e.1 e.2 ((b.unitsByMachine.get? e.1).getD [])

/-- Relations are selected by either of their applications. -/
def relations (b : Bundle) (selects : String → Bool) : String :=
  let selected := b.relations.filter fun r =>
    selects r.applications.1 || selects r.applications.2
  list "Relations" "No relations found." <| selected.map fun r => [relationLine r]

def ofKind (kind : PartKind) (b : Bundle) (selects : String → Bool) (detailed : Bool) : String :=
  match kind with
  | .machines => machines b selects detailed
  | .applications => applications b selects detailed
  | .relations => relations b selects

end Listing

/-- A test for names; without a pattern every name passes. -/
def nameTest : Option String → Option (String → Bool)
  | none => some fun _ => true
  | some pattern => (Glob.parse? pattern).map Glob.isMatch

end BundleCheck
