import BundleCheck.Bundle.Basic
import BundleCheck.Yaml.Source

/-! # Decoding bundles

Bundles are written by hand, so one thing has several shapes: machine identifiers are texts or
numbers, directives are one scalar or a list, and empty sections may be null. Decoding accepts
all of them, and refuses keys that come twice. -/

namespace BundleCheck

open Yaml Yaml.Source

variable {σ : Type} {m : Type → Type} [Monad m] [Source σ m]

/-! ## Scalars -/

/-- Reads a text that may be written as a whole number. -/
def readScalarText (part : σ) : m String := do
  match ← content part with
  | .scalar (.text s) => return s
  | .scalar (.int n) => return toString n
  | other => unexpected part other.found "a string or an integer"

/-- Reads a machine identifier, which may not be blank. -/
def MachineId.read (part : σ) : m MachineId := do
  let s ← readScalarText part
  if (Text.trim s.toList).isEmpty then mismatch part .emptyMachineId
  else return .ofText s

def OptionValue.read (part : σ) : m OptionValue := do
  match ← content part with
  | .scalar (.bool b) => return .bool b
  | .scalar (.int n) =>
      if n < Text.wordSize 63 then return .int n else mismatch part (.optionOutOfRange n)
  | .scalar (.float x) => return .float x
  | .scalar (.text s) => return .string s
  | other => unexpected part other.found "a scalar option value"

def readOptionalText (collection part : σ) : m (Option String) :=
  optional (text "a string") collection part

/-! ## Collections -/

/-- Reads options. A null leaves an option at its default, as if it were not there. -/
def readOptions (part : σ) : m (SortedMap String OptionValue) := do
  let options ← uniqueMap "option" id (text "a string") (optional OptionValue.read) part
  return options.filterMap fun _ v => v

def readPlacements (part : σ) : m (List String) := do
  match ← content part with
  | .scalar .null => return []
  | .scalar (.text s) => return [s]
  | .scalar (.int n) => return [toString n]
  | .items parts => parts.mapM readScalarText
  | other => unexpected part other.found "a placement directive or a list of them"

/-- Reads annotations; null counts as none. -/
def readAnnotations (collection part : σ) : m (SortedMap String OptionValue) := do
  return (← optional (Source.map OptionValue.read) collection part).getD .empty

/-- Reads bindings; null counts as none. -/
def readBindings (collection part : σ) : m (SortedMap String String) := do
  return (← optional (Source.map (text "a string")) collection part).getD .empty

/-! ## Machines -/

inductive MachineField
  | constraints
  | series
  | annotations
  deriving DecidableEq

def MachineField.ofName? : String → Option MachineField
  | "constraints" => some .constraints
  | "series" => some .series
  | "annotations" => some .annotations
  | _ => none

def MachineField.name : MachineField → String
  | .constraints => "constraints"
  | .series => "series"
  | .annotations => "annotations"

def Machine.readField (collection : σ) (a : Machine) (field : MachineField) (part : σ) :
    m Machine := do
  match field with
  | .constraints => return { a with constraints := ← readOptionalText collection part }
  | .series => return { a with series := ← readOptionalText collection part }
  | .annotations => return { a with annotations := ← readAnnotations collection part }

def Machine.read (part : σ) : m Machine := do
  let entries ← entries "struct Machine" part
  readEntries MachineField.ofName? MachineField.name (Machine.readField part) part [] {} entries

/-- Reads the machines. A null is a machine without constraints. -/
def readMachines (part : σ) : m (SortedMap MachineId Machine) := do
  let machines ← uniqueMap "machine id" MachineId.text MachineId.read (optional Machine.read) part
  return machines.map fun _ a => a.getD {}

/-! ## Applications -/

inductive ApplicationField
  | charm
  | series
  | channel
  | revision
  | numUnits
  | options
  | placements
  | constraints
  | bindings
  | expose
  | annotations
  deriving DecidableEq

def ApplicationField.name : ApplicationField → String
  | .charm => "charm"
  | .series => "series"
  | .channel => "channel"
  | .revision => "revision"
  | .numUnits => "num_units"
  | .options => "options"
  | .placements => "to"
  | .constraints => "constraints"
  | .bindings => "bindings"
  | .expose => "expose"
  | .annotations => "annotations"

def ApplicationField.ofName? : String → Option ApplicationField
  | "charm" => some .charm
  | "series" => some .series
  | "channel" => some .channel
  | "revision" => some .revision
  | "num_units" => some .numUnits
  | "options" => some .options
  | "to" => some .placements
  | "constraints" => some .constraints
  | "bindings" => some .bindings
  | "expose" => some .expose
  | "annotations" => some .annotations
  | _ => none

/-- Reads one field of an application, whose charm is kept apart until it is known. -/
def Application.readField (collection : σ) (a : Option String × Application)
    (field : ApplicationField) (part : σ) : m (Option String × Application) := do
  let (charm, app) := a
  match field with
  | .charm => return (some (← text "a string" part), app)
  | .series => return (charm, { app with series := ← readOptionalText collection part })
  | .channel => return (charm, { app with channel := ← readOptionalText collection part })
  | .revision => return (charm, { app with revision := ← optional natural32 collection part })
  | .numUnits => return (charm, { app with numUnits := ← optional natural32 collection part })
  | .options => return (charm, { app with options := ← readOptions part })
  | .placements => return (charm, { app with placements := ← readPlacements part })
  | .constraints => return (charm, { app with constraints := ← readOptionalText collection part })
  | .bindings => return (charm, { app with bindings := ← readBindings collection part })
  | .expose => return (charm, { app with expose := ← bool "a boolean" part })
  | .annotations => return (charm, { app with annotations := ← readAnnotations collection part })

/-- Reads an application, which must have a charm. -/
def Application.read (part : σ) : m Application := do
  let entries ← entries "struct Application" part
  let (charm, app) ← readEntries ApplicationField.ofName? ApplicationField.name
    (Application.readField part) part [] (none, { charm := "" }) entries
  match charm with
  | some charm => return { app with charm }
  | none => mismatch part (.missingField "charm")

def readApplications (part : σ) : m (SortedMap String Application) :=
  uniqueMap "application name" id (text "a string") (fun _ => Application.read) part

/-! ## Relations -/

/-- Reads a relation, a sequence of two endpoints. -/
def Relation.read (part : σ) : m Relation := do
  match ← items "tuple struct Relation" part with
  | [] => mismatch part (.invalidLength 0 "tuple struct Relation with 2 elements")
  | [left] => do
      let _ ← text "a string" left
      mismatch part (.invalidLength 1 "tuple struct Relation with 2 elements")
  | left :: right :: rest => do
      let left ← text "a string" left
      let right ← text "a string" right
      finish part 2 rest
      return ⟨left, right⟩

def readRelations (part : σ) : m (List Relation) := do
  (← items "a sequence" part).mapM Relation.read

/-! ## Bundles -/

inductive BundleField
  | name
  | description
  | series
  | vars
  | machines
  | applications
  | relations
  deriving DecidableEq

def BundleField.label : BundleField → String
  | .name => "name"
  | .description => "description"
  | .series => "series"
  | .vars => "variables"
  | .machines => "machines"
  | .applications => "applications"
  | .relations => "relations"

/-- The field of a section; `services` is an older name of `applications`. -/
def BundleField.ofName? : String → Option BundleField
  | "name" => some .name
  | "description" => some .description
  | "series" => some .series
  | "variables" => some .vars
  | "machines" => some .machines
  | "applications" => some .applications
  | "services" => some .applications
  | "relations" => some .relations
  | _ => none

def Bundle.readField (document : σ) (b : Bundle) (field : BundleField) (part : σ) :
    m Bundle := do
  match field with
  | .name => return { b with name := ← readOptionalText document part }
  | .description => return { b with description := ← readOptionalText document part }
  | .series => return { b with series := ← readOptionalText document part }
  | .vars => return { b with vars := (← optional mapping document part).getD [] }
  | .machines => return { b with machines := ← readMachines part }
  | .applications => return { b with applications := ← readApplications part }
  | .relations => return { b with relations := (← optional readRelations document part).getD [] }

/-- Reads the sections of a bundle in order. Sections without a field are kept. -/
def Bundle.readSections (document : σ) :
    List BundleField → Bundle → List (σ × σ) → m Bundle
  | _, b, [] => return b
  | seen, b, (key, part) :: rest => do
      let name ← text "field identifier" key
      match BundleField.ofName? name with
      | none => do
          let value ← sectionValue part
          readSections document seen { b with extra := b.extra ++ [(name, value)] } rest
      | some field =>
          if seen.contains field then mismatch document (.duplicateField field.label)
          else do
            let b ← Bundle.readField document b field part
            readSections document (field :: seen) b rest

/-- The sections without a meaning of their own, as a mapping. -/
def Bundle.sections (b : Bundle) : Value :=
  .mapping (b.extra.map fun e => (.string e.1, e.2))

/-- Reads a bundle. No key of a section that is kept may come twice. -/
def Bundle.read (document : σ) : m Bundle := do
  let entries ← entries "struct Bundle" document
  let b ← Bundle.readSections document [] {} entries
  match b.sections.repeatedKey? with
  | some key => mismatch document (.duplicateEntry key)
  | none => return b

def Bundle.decode (v : Value) : Except Mismatch Bundle :=
  Bundle.read v

end BundleCheck
