import BundleCheck.Include
import BundleCheck.Overlay
import BundleCheck.Yaml.Reader

/-! # Loading bundles

A text is split into documents: the first is the bundle, the others are overlays. Included
files are read, overlays are applied in order, and the result is decoded. -/

namespace BundleCheck

open Yaml

/-! ## Documents -/

def parseDocuments (origin text : String) : Except Failure (List Value) :=
  (readValues text).mapError fun problem => .bundleUnreadable origin problem

/-- Applies overlays in order, each with its included files. -/
def applyOverlays (tree : FileTree) (origin : String) (directory : FilePath) (base : Value)
    (overlays : List Value) : Except Failure Value :=
  overlays.foldlM
    (fun base overlay => do
      Overlay.apply origin base (← Include.expand tree directory overlay))
    base

/-- The bundle among documents, with the overlays after it applied. -/
def resolveDocuments (tree : FileTree) (origin : String) (directory : FilePath) :
    List Value → Except Failure Value
  | [] => .error (.bundleEmpty origin)
  | .null :: _ => .error (.bundleEmpty origin)
  | .mapping root :: overlays => do
      let base ← Include.expand tree directory (.mapping root)
      applyOverlays tree origin directory base overlays
  | _ :: _ => .error (.bundleNotMapping origin)

def decodeDocument (origin : String) (document : Value) : Except Failure Bundle :=
  (Bundle.decode document).mapError fun cause =>
    .bundleUnreadable origin (.mismatch .root cause)

/-! ## Texts and files -/

def loadText (tree : FileTree) (text : String) (directory : FilePath) :
    Except Failure Bundle := do
  let documents ← parseDocuments "<input>" text
  let document ← resolveDocuments tree "<input>" directory documents
  decodeDocument "<input>" document

def readFile (tree : FileTree) (path : FilePath) : Except Failure String :=
  if tree.contains path then
    (tree.readText path).mapError fun cause => .fileReadFailed path.display cause
  else .error (.fileNotFound path.display)

def applyOverlayFile (tree : FileTree) (base : Value) (path : FilePath) :
    Except Failure Value := do
  let text ← readFile tree path
  let overlays ← parseDocuments path.display text
  applyOverlays tree path.display path.directory base overlays

/-- Loads a bundle file, with overlay files on top. -/
def loadFile (tree : FileTree) (path : FilePath) (overlays : List FilePath) :
    Except Failure Bundle := do
  let text ← readFile tree path
  let documents ← parseDocuments path.display text
  let document ← resolveDocuments tree path.display path.directory documents
  let merged ← overlays.foldlM (applyOverlayFile tree) document
  decodeDocument path.display merged

def includedFiles (text : String) (directory : FilePath) : List FilePath :=
  match readValues text with
  | .ok documents =>
      (documents.flatMap Include.targets).map fun target : String => directory.join target
  | .error _ => []

end BundleCheck
