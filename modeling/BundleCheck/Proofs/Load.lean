import BundleCheck.Load
import BundleCheck.Proofs.Except
import BundleCheck.Proofs.Yaml.Reader

/-! # Documents that are loaded

Loading files is reading the documents of each of them, and loading these. No mapping of a document
that is read holds a key twice, which is what overlays rely on. -/

namespace BundleCheck

open Yaml

variable {tree : FileTree} {origin : String} {directory : FilePath}

theorem distinctKeys_of_parseDocuments {text : String} {documents : List Value}
    (h : parseDocuments origin text = .ok documents) : ∀ d ∈ documents, d.DistinctKeys :=
  distinctKeys_of_readValues (mapError_eq_ok_iff.mp h)

theorem resolveDocuments_mapping (root : Mapping) (overlays : List Value) :
    resolveDocuments tree origin directory (.mapping root :: overlays) =
      Include.expand tree directory (.mapping root) >>= fun base =>
        applyOverlays tree origin directory base overlays :=
  rfl

/-! ## Files and their documents -/

/-- The documents of a file, and the directory from which they include files. -/
structure DocumentFile where
  origin : String
  directory : FilePath
  documents : List Value

def readDocuments (tree : FileTree) (path : FilePath) : Except Failure DocumentFile := do
  let text ← readFile tree path
  let documents ← parseDocuments path.display text
  return { origin := path.display, directory := path.directory, documents }

def DocumentFile.applyTo (tree : FileTree) (base : Value) (file : DocumentFile) :
    Except Failure Value :=
  applyOverlays tree file.origin file.directory base file.documents

def loadDocuments (tree : FileTree) (bundle : DocumentFile) (overlays : List DocumentFile) :
    Except Failure Bundle := do
  let document ← resolveDocuments tree bundle.origin bundle.directory bundle.documents
  let merged ← overlays.foldlM (DocumentFile.applyTo tree) document
  decodeDocument bundle.origin merged

def textFile (text : String) : FileEntry :=
  .file (Text.utf8 text)

theorem readDocuments_eq_ok_iff {path : FilePath} {file : DocumentFile} :
    readDocuments tree path = .ok file ↔
      ∃ text documents, readFile tree path = .ok text ∧
        parseDocuments path.display text = .ok documents ∧
        file = { origin := path.display, directory := path.directory, documents } := by
  simp only [readDocuments, bind_eq_ok_iff]
  constructor
  · rintro ⟨text, htext, documents, hdocuments, h⟩
    cases h
    exact ⟨text, documents, htext, hdocuments, rfl⟩
  · rintro ⟨text, documents, htext, hdocuments, rfl⟩
    exact ⟨text, htext, documents, hdocuments, rfl⟩

theorem distinctKeys_of_readDocuments {path : FilePath} {file : DocumentFile}
    (h : readDocuments tree path = .ok file) : ∀ d ∈ file.documents, d.DistinctKeys := by
  obtain ⟨text, documents, -, hdocuments, rfl⟩ := readDocuments_eq_ok_iff.mp h
  exact distinctKeys_of_parseDocuments hdocuments

theorem applyOverlayFile_eq (tree : FileTree) :
    applyOverlayFile tree = fun base path =>
      readDocuments tree path >>= DocumentFile.applyTo tree base := by
  funext base path
  simp only [applyOverlayFile, readDocuments, bind_assoc]
  rfl

/-- Files are loaded exactly if each of them is read, and their documents are loaded. -/
theorem loadFile_eq_ok_iff {path : FilePath} {overlays : List FilePath} {b : Bundle} :
    loadFile tree path overlays = .ok b ↔
      ∃ bundle files, readDocuments tree path = .ok bundle ∧
        List.Forall₂ (fun p file => readDocuments tree p = .ok file) overlays files ∧
        loadDocuments tree bundle files = .ok b := by
  simp only [loadFile, loadDocuments, applyOverlayFile_eq, bind_eq_ok_iff, foldlM_bind_eq_ok_iff]
  constructor
  · rintro ⟨text, htext, documents, hdocuments, d, hd, m, ⟨files, hfiles, hm⟩, hb⟩
    have hbundle := readDocuments_eq_ok_iff.mpr ⟨text, documents, htext, hdocuments, rfl⟩
    exact ⟨_, files, hbundle, hfiles, d, hd, m, hm, hb⟩
  · rintro ⟨bundle, files, hbundle, hfiles, d, hd, m, hm, hb⟩
    obtain ⟨text, documents, htext, hdocuments, rfl⟩ := readDocuments_eq_ok_iff.mp hbundle
    exact ⟨text, htext, documents, hdocuments, d, hd, m, ⟨files, hfiles, hm⟩, hb⟩

end BundleCheck
