import BundleCheck.Failure
import BundleCheck.Text.Base64

/-! # Included files

An option value that begins with `include-file://` or `include-base64://` stands for the file
that it names, relative to the directory of its document. -/

namespace BundleCheck

open Yaml

namespace Include

/-! ## Directives -/

inductive Form
  | text
  | base64
  deriving DecidableEq

def Form.opening : Form → List Char
  | .text => "include-file://".toList
  | .base64 => "include-base64://".toList

def directive? (s : String) : Option (Form × String) :=
  match Text.afterOpening? Form.text.opening s.toList with
  | some target => some (.text, String.ofList target)
  | none =>
      (Text.afterOpening? Form.base64.opening s.toList).map fun target =>
        (.base64, String.ofList target)

def Form.render : Form → List UInt8 → String
  | .text, bytes => Text.ofUtf8Lossy bytes
  | .base64, bytes => String.ofList (Text.base64 bytes)

/-! ## Expansion -/

def expandValue (tree : FileTree) (directory : FilePath) (v : Value) : Except Failure Value :=
  match v.text?.bind directive? with
  | some (form, target) =>
      let path := FilePath.join directory target
      match tree.readBytes path with
      | .ok bytes => .ok (.string (form.render bytes))
      | .error cause => .error (.fileReadFailed path.display cause)
  | none => .ok v

def mapEntries (f : Value → Except Failure Value) (m : Mapping) : Except Failure Mapping :=
  m.mapM fun e => (f e.2).map fun v => (e.1, v)

/-- Changes the entries of a mapping; other values stay as they are. -/
def inMapping (f : Mapping → Except Failure Mapping) (v : Value) : Except Failure Value :=
  match v.entries? with
  | some m => (f m).map v.withEntries
  | none => .ok v

/-- Changes the value stored under a name, if there is one. -/
def inEntry (name : String) (f : Value → Except Failure Value) (m : Mapping) :
    Except Failure Mapping :=
  match m.getName? name with
  | some v => (f v).map fun v => m.insert (.string name) v
  | none => .ok m

/-- The section whose options are expanded. -/
def sectionName (root : Mapping) : String :=
  if root.containsName "applications" then "applications" else "services"

def expandApplication (tree : FileTree) (directory : FilePath) : Value → Except Failure Value :=
  inMapping (inEntry "options" (inMapping (mapEntries (expandValue tree directory))))

/-- Expands the option values of all applications of a document. -/
def expand (tree : FileTree) (directory : FilePath) : Value → Except Failure Value :=
  inMapping fun root =>
    inEntry (sectionName root) (inMapping (mapEntries (expandApplication tree directory))) root

/-! ## Targets -/

mutual

def targets : Value → List String
  | .string s => ((directive? s).map (·.2)).toList
  | .sequence items => targetsOfItems items
  | .mapping entries => targetsOfEntries entries
  | .tagged _ v => targets v
  | _ => []

def targetsOfItems : List Value → List String
  | [] => []
  | v :: vs => targets v ++ targetsOfItems vs

def targetsOfEntries : Mapping → List String
  | [] => []
  | (_, v) :: es => targets v ++ targetsOfEntries es

end

end Include

end BundleCheck
