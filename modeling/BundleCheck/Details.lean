import BundleCheck.Listing

/-! # Details of an application -/

namespace BundleCheck

namespace Details

open Listing (field unitsLabel)

/-- Constraints in canonical form, or as written if they cannot be read. -/
def constraintsText (text : String) : String :=
  match Constraints.parse text with
  | .ok constraints => constraints.render
  | .error _ => text

/-- The charm as written; charms of this machine are marked. -/
def charmText (a : Application) : String :=
  match a.charmRef with
  | .ok charm => if charm.isLocal then s!"{a.charm} (local)" else a.charm
  | .error _ => a.charm

/-- Lines under a heading, which is left out if there are none. -/
def titled (title : String) (lines : List String) : List String :=
  if lines.isEmpty then [] else s!"  {title}" :: lines.map fun line => s!"    {line}"

/-- The name of an endpoint; the empty one stands for all that are not named. -/
def endpointLabel (endpoint : String) : String :=
  if endpoint.isEmpty then "(default)" else endpoint

def relationLines (b : Bundle) (name : String) : List String :=
  (b.relationsOf name).filterMap fun r => (r.peerOf? name).map fun peer => s!"-> {peer}"

def lines (b : Bundle) (name : String) (a : Application) : List String :=
  [name, s!"  Charm: {charmText a}"] ++ field "  " "Channel:" a.channel ++
    field "  " "Revision:" (a.revision.map toString) ++
    field "  " "Series:" (a.effectiveSeries b.series) ++
    [s!"  Units: {unitsLabel a}"] ++
    field "  " "Constraints:" (a.constraints.map constraintsText) ++
    (if a.expose then ["  Exposed: yes"] else []) ++
    titled "Placement:" (a.placements.mapIdx fun unit directive => s!"{name}/{unit} {directive}") ++
    titled "Options:" (a.options.entries.map fun e => s!"{e.1}: {e.2.render}") ++
    titled "Bindings:" (a.bindings.entries.map fun e => s!"{endpointLabel e.1}: {e.2}") ++
    titled "Relations:" (relationLines b name)

def text (b : Bundle) (name : String) (a : Application) : String :=
  Text.unlines (lines b name a)

end Details

end BundleCheck
