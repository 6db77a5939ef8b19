import BundleCheck.Bundle.Basic

/-! # Encoding bundles

A bundle is encoded as a mapping of its sections. Parts that are absent or empty are left out,
and sections without a meaning of their own come last. -/

namespace BundleCheck

open Yaml (Value Mapping)

/-! ## Entries -/

def entry (name : String) (v : Value) : Value × Value :=
  (.string name, v)

def textEntry (name : String) (s : Option String) : Mapping :=
  (s.map fun s => entry name (.string s)).toList

def numberEntry (name : String) (n : Option Nat) : Mapping :=
  (n.map fun n => entry name (.number (.int n))).toList

/-- The entry of a mapping that is not empty. -/
def mappingEntry (name : String) (m : Mapping) : Mapping :=
  if m.isEmpty then [] else [entry name (.mapping m)]

/-- The entry of a list that is not empty. -/
def listEntry (name : String) (items : List Value) : Mapping :=
  if items.isEmpty then [] else [entry name (.sequence items)]

/-! ## Parts -/

def OptionValue.encode : OptionValue → Value
  | .bool b => .bool b
  | .int n => .number (.int n)
  | .float x => .number (.float x)
  | .string s => .string s

def encodeOptions (options : SortedMap String OptionValue) : Mapping :=
  options.entries.map fun e => entry e.1 e.2.encode

def Machine.encode (a : Machine) : Value :=
  .mapping <|
    textEntry "constraints" a.constraints ++ textEntry "series" a.series ++
      mappingEntry "annotations" (encodeOptions a.annotations)

def Application.encode (a : Application) : Value :=
  .mapping <|
    entry "charm" (.string a.charm) :: textEntry "series" a.series ++
      textEntry "channel" a.channel ++ numberEntry "revision" a.revision ++
      numberEntry "num_units" a.numUnits ++ mappingEntry "options" (encodeOptions a.options) ++
      listEntry "to" (a.placements.map .string) ++ textEntry "constraints" a.constraints ++
      mappingEntry "bindings" (a.bindings.entries.map fun e => entry e.1 (.string e.2)) ++
      (if a.expose then [entry "expose" (.bool true)] else []) ++
      mappingEntry "annotations" (encodeOptions a.annotations)

def Relation.encode (r : Relation) : Value :=
  .sequence [.string r.left, .string r.right]

/-- A bundle as a mapping. The applications are always written. -/
def Bundle.encode (b : Bundle) : Value :=
  .mapping <|
    textEntry "name" b.name ++ textEntry "description" b.description ++
      textEntry "series" b.series ++ mappingEntry "variables" b.vars ++
      mappingEntry "machines" (b.machines.entries.map fun e => entry e.1.text e.2.encode) ++
      [entry "applications"
        (.mapping (b.applications.entries.map fun e => entry e.1 e.2.encode))] ++
      listEntry "relations" (b.relations.map Relation.encode) ++
      b.extra.map fun e => entry e.1 e.2

end BundleCheck
