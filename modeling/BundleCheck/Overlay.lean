import BundleCheck.Bundle.Decode
import BundleCheck.Bundle.Encode
import BundleCheck.Failure

/-! # Overlays

An overlay is a partial bundle, applied on top of a base document. What it sets to null is
removed, and with an application every relation that names it; what it names is merged or
added; and relations are appended unless they are there already. Overlays work on values, so
that they may leave out what a bundle needs. -/

namespace BundleCheck

open Yaml

namespace Overlay

/-! ## Fields -/

/-- Fields that are merged key by key. -/
def isKeywise (field : String) : Bool :=
  field == "options" || field == "bindings" || field == "annotations"

/-- Merges one entry of a field: a null removes the key. -/
def mergeKey (existing : Mapping) (e : Value × Value) : Mapping :=
  if e.2.isNull then existing.remove e.1 else existing.insert e.1 e.2

def mergeField (base : Mapping) (e : Value × Value) : Mapping :=
  match e.1.text?.any isKeywise, base.get? e.1, e.2 with
  | true, some (.mapping existing), .mapping incoming =>
      base.insert e.1 (.mapping (incoming.foldl mergeKey existing))
  | _, _, _ => base.insert e.1 e.2

def mergeFields (base fields : Mapping) : Mapping :=
  fields.foldl mergeField base

/-! ## Sections -/

/-- The section of a base document under a key, and its value if it is not there or null. -/
def sectionOf (root : Mapping) (key : String) : Value :=
  match root.getName? key with
  | some v => if v.isNull then .mapping [] else v
  | none => .mapping []

/-- The key under which a base document lists its applications. -/
def applicationKey (root : Mapping) : String :=
  if root.containsName "applications" then "applications"
  else if root.containsName "services" then "services"
  else "applications"

/-! ## Applications -/

/-- Merges one application; answers its name too, if the overlay removes it. -/
def mergeApplication (origin : String) (base : Mapping) (e : Value × Value) :
    Except Failure (Mapping × Option String) :=
  match e.1.text? with
  | none => .error (.overlayInvalid origin .applicationNameNotText)
  | some name =>
      match e.2 with
      | .null => .ok (base.remove e.1, some name)
      | .mapping fields =>
          match base.get? e.1 with
          | some (.mapping existing) =>
              .ok (base.insert e.1 (.mapping (mergeFields existing fields)), none)
          | _ =>
              if Mapping.containsName fields "charm" then
                .ok (base.insert e.1 (.mapping fields), none)
              else .error (.overlayMissingCharm name)
      | _ => .error (.overlayInvalid origin (.applicationNotMapping name))

/-- Merges applications in order; answers the names of those that the overlay removes. -/
def mergeEach (origin : String) :
    Mapping → List String → Mapping → Except Failure (Mapping × List String)
  | base, removed, [] => .ok (base, removed)
  | base, removed, e :: rest => do
      let (base, name?) ← mergeApplication origin base e
      mergeEach origin base (removed ++ name?.toList) rest

def mergeApplications (origin key : String) (root : Mapping) (overlay : Value) :
    Except Failure (Mapping × List String) :=
  match overlay with
  | .null => .ok (root, [])
  | .mapping applications =>
      let base := sectionOf root key
      match base.entries? with
      | none => .error (.overlayInvalid origin .baseApplicationsNotMapping)
      | some existing => do
          let (merged, removed) ← mergeEach origin existing [] applications
          return (root.insert (.string key) (base.withEntries merged), removed)
  | _ => .error (.overlayInvalid origin .applicationsNotMapping)

/-! ## Machines -/

def keyText? : Value → Option (List Char)
  | .string s => some (Text.trim s.toList)
  | .number n => some n.chars
  | _ => none

/-- The keys name one machine, be they texts or numbers. -/
def sameMachine (a b : Value) : Bool :=
  match keyText? a, keyText? b with
  | some s, some t => s == t
  | _, _ => false

def mergeMachine (base : Mapping) (e : Value × Value) : Mapping :=
  let key := ((base.find? fun b => sameMachine b.1 e.1).map (·.1)).getD e.1
  match e.2 with
  | .null => base.remove key
  | .mapping fields =>
      match base.get? key with
      | some (.mapping existing) => base.insert key (.mapping (mergeFields existing fields))
      | _ => base.insert key (.mapping fields)
  | machine => base.insert key machine

def mergeMachines (origin : String) (root : Mapping) (overlay : Value) :
    Except Failure Mapping :=
  match overlay with
  | .null => .ok root
  | .mapping machines =>
      let base := sectionOf root "machines"
      match base.entries? with
      | none => .error (.overlayInvalid origin .baseMachinesNotMapping)
      | some existing =>
          .ok (root.insert (.string "machines")
            (base.withEntries (machines.foldl mergeMachine existing)))
  | _ => .error (.overlayInvalid origin .machinesNotMapping)

/-! ## Relations -/

/-- Adds a relation, unless it is there in either orientation. -/
def addRelation (known : List Relation) (r : Relation) : List Relation :=
  if known.any fun k => k.sameAs r then known else known ++ [r]

def baseRelations (origin : String) (root : Mapping) : Except Failure (List Relation) :=
  match root.getName? "relations" with
  | some v =>
      if v.isNull then .ok []
      else (readRelations v).mapError fun cause => .overlayInvalid origin (.baseRelations cause)
  | none => .ok []

def appendRelations (origin : String) (root : Mapping) (overlay : Value) :
    Except Failure Mapping :=
  match overlay with
  | .null => .ok root
  | _ => do
      let added ← (readRelations overlay).mapError fun cause =>
        .overlayInvalid origin (.relations cause)
      let known ← baseRelations origin root
      let merged := added.foldl addRelation known
      return root.insert (.string "relations") (.sequence (merged.map Relation.encode))

def isRelationOf (application : String) (v : Value) : Bool :=
  match (Relation.read v : Except Mismatch Relation) with
  | .ok r => r.involves application
  | .error _ => false

def removeRelations (root : Mapping) (application : String) : Mapping :=
  match root.getName? "relations" with
  | some (.sequence relations) =>
      root.insert (.string "relations")
        (.sequence (relations.filter fun r => !isRelationOf application r))
  | _ => root

/-! ## Documents -/

def applySection (origin key : String) (root : Mapping) (e : Value × Value) :
    Except Failure Mapping :=
  match e.1.text? with
  | none => .error (.overlayInvalid origin .keyNotText)
  | some name =>
      if name == "applications" || name == "services" then do
        let (root, removed) ← mergeApplications origin key root e.2
        return removed.foldl removeRelations root
      else if name == "machines" then mergeMachines origin root e.2
      else if name == "relations" then appendRelations origin root e.2
      else .ok (root.insert e.1 e.2)

/-- Applies an overlay to a base document; `origin` names the overlay in failures. -/
def apply (origin : String) (base overlay : Value) : Except Failure Value :=
  match overlay with
  | .null => .ok base
  | .mapping sections =>
      match base.entries? with
      | none => .error (.overlayInvalid origin .baseNotMapping)
      | some root => do
          let merged ← sections.foldlM (applySection origin (applicationKey root)) root
          return base.withEntries merged
  | _ => .error (.overlayInvalid origin .overlayNotMapping)

end Overlay

end BundleCheck
