import BundleCheck.Proofs.Include.Exact

/-! # What loading reads

A bundle is loaded from its file, the files of its overlays, and the files that options of their
documents name. Trees that hold the same at these paths load it alike, whatever else they hold. -/

namespace BundleCheck

open Yaml

variable {tree tree' : FileTree} {path directory : FilePath}

/-! ## Paths -/

namespace FileTree

theorem step_ne_isDirectory {trail : List FileEntry} {part : FilePath} :
    step trail part ≠ .error .isDirectory := by
  unfold step
  split
  · split
    · simp
    · split
      · simp
      · split <;> simp
  · simp

theorem lookup_ne_isDirectory : tree.lookup path ≠ .error .isDirectory := by
  unfold lookup
  split
  · simp
  · rw [Ne, bind_eq_error_iff, not_or]
    constructor
    · intro h
      obtain ⟨trail, part, -, hstep⟩ := exists_of_foldlM_eq_error h
      exact step_ne_isDirectory hstep
    · rintro ⟨trail, -, h⟩
      split at h <;> cases h

/-- Whether there is anything at a path is seen by reading there. -/
theorem contains_eq : tree.contains path =
    match tree.readBytes path with
    | .ok _ => true
    | .error cause => cause == .isDirectory := by
  have hne : tree.lookup path ≠ .error .isDirectory := lookup_ne_isDirectory
  unfold contains readBytes
  cases hlookup : tree.lookup path with
  | ok entry => cases entry <;> rfl
  | error cause =>
      rw [hlookup] at hne
      cases cause with
      | isDirectory => exact absurd rfl hne
      | _ => rfl

end FileTree

theorem readFile_congr (h : tree'.readBytes path = tree.readBytes path) :
    readFile tree' path = readFile tree path := by
  unfold readFile FileTree.readText
  rw [FileTree.contains_eq, FileTree.contains_eq, h]

/-! ## Files that are named -/

namespace Include

def namedFile? (directory : FilePath) (v : Value) : Option FilePath :=
  (v.text?.bind directive?).map fun d => FilePath.join directory d.2

def namedFiles (directory : FilePath) (d : Value) : List FilePath :=
  (optionValues d).filterMap (namedFile? directory)

theorem expandValue_congr {v : Value}
    (h : ∀ p, namedFile? directory v = some p → tree'.readBytes p = tree.readBytes p) :
    expandValue tree' directory v = expandValue tree directory v := by
  obtain ⟨form, target, hv⟩ | hnone := isDirective_or_not v
  · have hnamed : namedFile? directory v = some (FilePath.join directory target) := by
      rw [namedFile?, isDirective_iff.mp hv]
      rfl
    rw [expandValue_of_isDirective hv, expandValue_of_isDirective hv, h _ hnamed]
  · rw [expandValue_of_not_isDirective hnone, expandValue_of_not_isDirective hnone]

theorem expand_eq_of_namedFiles {d : Value}
    (h : ∀ p ∈ namedFiles directory d, tree'.readBytes p = tree.readBytes p) :
    expand tree' directory d = expand tree directory d :=
  expand_congr fun v hv => expandValue_congr fun p hp => h p (List.mem_filterMap.mpr ⟨v, hv, hp⟩)

end Include

/-! ## Documents -/

section

variable {origin : String} {documents : List Value}

theorem applyOverlays_congr
    (h : ∀ d ∈ documents, Include.expand tree' directory d = Include.expand tree directory d)
    (base : Value) : applyOverlays tree' origin directory base documents =
      applyOverlays tree origin directory base documents := by
  refine foldlM_congr (fun base d hd => ?_) base
  rw [h d hd]

theorem resolveDocuments_congr
    (h : ∀ d ∈ documents, Include.expand tree' directory d = Include.expand tree directory d) :
    resolveDocuments tree' origin directory documents =
      resolveDocuments tree origin directory documents := by
  cases documents with
  | nil => rfl
  | cons first overlays =>
      obtain ⟨hfirst, hoverlays⟩ := List.forall_mem_cons.mp h
      cases first with
      | mapping root =>
          rw [resolveDocuments_mapping, resolveDocuments_mapping, hfirst]
          exact bind_congr fun base => applyOverlays_congr hoverlays base
      | _ => rfl

end

/-! ## Files of documents -/

/-- The paths that are read for a file of documents: its own, and those that options of its
documents name. -/
def filesRead (tree : FileTree) (path : FilePath) : List FilePath :=
  path :: match readDocuments tree path with
    | .ok file => file.documents.flatMap (Include.namedFiles file.directory)
    | .error _ => []

/-- The second tree holds the same as the first at the paths that are read for a file. -/
def ReadsAlike (tree tree' : FileTree) (path : FilePath) : Prop :=
  ∀ p ∈ filesRead tree path, tree'.readBytes p = tree.readBytes p

instance (tree tree' : FileTree) (path : FilePath) : Decidable (ReadsAlike tree tree' path) :=
  inferInstanceAs (Decidable (∀ p ∈ filesRead tree path, tree'.readBytes p = tree.readBytes p))

namespace ReadsAlike

theorem readDocuments_eq (h : ReadsAlike tree tree' path) :
    readDocuments tree' path = readDocuments tree path := by
  unfold readDocuments
  rw [readFile_congr (h path (by simp [filesRead]))]

theorem expand_eq (h : ReadsAlike tree tree' path) {file : DocumentFile}
    (hfile : readDocuments tree path = .ok file) : ∀ d ∈ file.documents,
      Include.expand tree' file.directory d = Include.expand tree file.directory d := by
  intro d hd
  refine Include.expand_eq_of_namedFiles fun p hp => h p ?_
  rw [filesRead, hfile]
  exact List.mem_cons_of_mem _ (List.mem_flatMap.mpr ⟨d, hd, hp⟩)

end ReadsAlike

theorem loadFile_eq (tree : FileTree) (path : FilePath) (overlays : List FilePath) :
    loadFile tree path overlays = (do
      let file ← readDocuments tree path
      let document ← resolveDocuments tree path.display file.directory file.documents
      let merged ← overlays.foldlM
        (fun base p => readDocuments tree p >>= DocumentFile.applyTo tree base) document
      decodeDocument path.display merged) := by
  simp only [loadFile, readDocuments, applyOverlayFile_eq, bind_assoc]
  rfl

/-- A bundle is loaded alike from trees that hold the same at the paths that are read for its file
and for its overlays. -/
theorem loadFile_congr {overlays : List FilePath}
    (h : ∀ p ∈ path :: overlays, ReadsAlike tree tree' p) :
    loadFile tree' path overlays = loadFile tree path overlays := by
  obtain ⟨hbundle, hoverlays⟩ := List.forall_mem_cons.mp h
  rw [loadFile_eq, loadFile_eq, hbundle.readDocuments_eq]
  refine bind_congr_ok fun file hfile => ?_
  rw [resolveDocuments_congr (hbundle.expand_eq hfile)]
  refine bind_congr fun document => congrArg (· >>= decodeDocument path.display) ?_
  refine foldlM_congr (fun base p hp => ?_) document
  rw [(hoverlays p hp).readDocuments_eq]
  exact bind_congr_ok fun overlay hoverlay =>
    applyOverlays_congr ((hoverlays p hp).expand_eq hoverlay) base

end BundleCheck
