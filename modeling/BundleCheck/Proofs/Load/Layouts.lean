import BundleCheck.Proofs.Include.Options
import BundleCheck.Proofs.Load
import BundleCheck.Proofs.Overlay.Origin
import BundleCheck.Proofs.Render
import BundleCheck.Proofs.Yaml.Equality

/-! # Layouts of documents

The documents of a bundle can be laid out over files in several ways: overlays stand behind the
bundle in its own file, or in files of their own. Layouts of the same documents are loaded alike,
unless a document includes a file that differs between them. -/

namespace BundleCheck

open Yaml
open Overlay (rootOf)
open Include (optionsOf IsDirective)

/-! ## Layouts -/

/-- What the text of one document describes. -/
def documentValue? (part : String) : Option Value :=
  match readValues part with
  | .ok [d] => some d
  | _ => none

/-- A text holds documents: it is read as what they describe, and not at all if one of them cannot
be read. A text without documents may be read as a null. -/
def Holds (text : String) (parts : List String) : Prop :=
  (readValues text).toOption = parts.mapM documentValue? ∨
    parts = [] ∧ (readValues text).toOption = some [.null]

def WrittenIn (tree : FileTree) (path : FilePath) (parts : List String) : Prop :=
  ∃ text, readFile tree path = .ok text ∧ Holds text parts

instance (text : String) (parts : List String) : Decidable (Holds text parts) :=
  inferInstanceAs (Decidable (_ ∨ _))

instance (tree : FileTree) (path : FilePath) (parts : List String) :
    Decidable (WrittenIn tree path parts) :=
  decidable_of_iff (∃ text ∈ (readFile tree path).toOption, Holds text parts) <| by
    simp only [WrittenIn, Option.mem_def, toOption_eq_some_iff]

/-- A bundle and its overlays are laid out over files: the first overlays stand behind the bundle in
its file, and the others are distributed in order over overlay files. -/
def IsLayout (tree : FileTree) (path : FilePath) (overlays : List FilePath) (bundle : String)
    (parts : List String) : Prop :=
  ∃ front rests, WrittenIn tree path (bundle :: front) ∧
    List.Forall₂ (WrittenIn tree) overlays rests ∧ parts = front ++ rests.flatten

/-- Every file that one of the documents includes is read alike from the one directory and from the
other. -/
def IncludesAlike (tree tree' : FileTree) (directory directory' : FilePath)
    (parts : List String) : Prop :=
  ∀ part ∈ parts, ∀ d, documentValue? part = some d → ∀ o ∈ optionsOf d,
    o.IsReached (rootOf d) → ∀ form target, IsDirective o.value form target →
      (tree.readBytes (FilePath.join directory target)).toOption =
        (tree'.readBytes (FilePath.join directory' target)).toOption

instance (tree tree' : FileTree) (directory directory' : FilePath) (parts : List String) :
    Decidable (IncludesAlike tree tree' directory directory' parts) :=
  decidable_of_iff
    (∀ part ∈ parts, ∀ d ∈ documentValue? part, ∀ o ∈ optionsOf d, o.IsReached (rootOf d) →
      ∀ directive ∈ o.value.text?.bind Include.directive?,
        (tree.readBytes (FilePath.join directory directive.2)).toOption =
          (tree'.readBytes (FilePath.join directory' directive.2)).toOption) <| by
    simp only [IncludesAlike, Include.isDirective_iff, Option.mem_def, Prod.forall]

/-! ## Documents one after another -/

section

variable {tree tree' : FileTree} {origin origin' : String} {directory directory' : FilePath}

def ExpandsAlike (tree tree' : FileTree) (directory directory' : FilePath)
    (documents : List Value) : Prop :=
  ∀ d ∈ documents, (Include.expand tree directory d).toOption =
    (Include.expand tree' directory' d).toOption

theorem toOption_applyOverlays_congr {overlays : List Value}
    (h : ExpandsAlike tree tree' directory directory' overlays) (base : Value) :
    (applyOverlays tree origin directory base overlays).toOption =
      (applyOverlays tree' origin' directory' base overlays).toOption := by
  apply toOption_foldlM_congr
  intro base overlay hoverlay
  rw [toOption_bind, toOption_bind, h overlay hoverlay]
  exact Option.bind_congr fun e _ => Overlay.toOption_apply origin origin' base e

theorem toOption_resolveDocuments_congr {documents : List Value}
    (h : ExpandsAlike tree tree' directory directory' documents) :
    (resolveDocuments tree origin directory documents).toOption =
      (resolveDocuments tree' origin' directory' documents).toOption := by
  cases documents with
  | nil => rfl
  | cons first overlays =>
      obtain ⟨hfirst, hoverlays⟩ := List.forall_mem_cons.mp h
      cases first with
      | mapping root =>
          rw [resolveDocuments_mapping, resolveDocuments_mapping, toOption_bind, toOption_bind,
            hfirst]
          exact Option.bind_congr fun base _ => toOption_applyOverlays_congr hoverlays base
      | _ => rfl

theorem applyOverlays_null (base : Value) :
    applyOverlays tree origin directory base [.null] = .ok base :=
  rfl

theorem applyOverlays_append (base : Value) (overlays overlays' : List Value) :
    applyOverlays tree origin directory base (overlays ++ overlays') =
      applyOverlays tree origin directory base overlays >>= fun d =>
        applyOverlays tree origin directory d overlays' :=
  List.foldlM_append ..

/-- Overlays behind the bundle are those that its document is resolved with. -/
theorem resolveDocuments_append (first : Value) (overlays overlays' : List Value) :
    resolveDocuments tree origin directory (first :: (overlays ++ overlays')) =
      resolveDocuments tree origin directory (first :: overlays) >>= fun d =>
        applyOverlays tree origin directory d overlays' := by
  cases first with
  | mapping root =>
      rw [resolveDocuments_mapping, resolveDocuments_mapping, bind_assoc]
      exact bind_congr fun base => applyOverlays_append base overlays overlays'
  | _ => rfl

/-! ## Files one after another -/

def PartsExpandAlike (tree tree' : FileTree) (directory directory' : FilePath)
    (parts : List String) : Prop :=
  ∀ part ∈ parts, ∀ d, documentValue? part = some d →
    (Include.expand tree directory d).toOption = (Include.expand tree' directory' d).toOption

theorem IncludesAlike.partsExpandAlike {parts : List String}
    (h : IncludesAlike tree tree' directory directory' parts) :
    PartsExpandAlike tree tree' directory directory' parts := by
  intro part hpart d hd
  apply Include.toOption_expand_congr
  intro o ho hreached
  apply Include.toOption_expandValue_congr
  exact h part hpart d hd o ho hreached

theorem PartsExpandAlike.symm {parts : List String}
    (h : PartsExpandAlike tree tree' directory directory' parts) :
    PartsExpandAlike tree' tree directory' directory parts :=
  fun part hpart d hd => (h part hpart d hd).symm

theorem PartsExpandAlike.trans {tree'' : FileTree} {directory'' : FilePath} {parts : List String}
    (h : PartsExpandAlike tree tree' directory directory' parts)
    (h' : PartsExpandAlike tree' tree'' directory' directory'' parts) :
    PartsExpandAlike tree tree'' directory directory'' parts :=
  fun part hpart d hd => (h part hpart d hd).trans (h' part hpart d hd)

theorem PartsExpandAlike.mono {parts parts' : List String}
    (h : PartsExpandAlike tree tree' directory directory' parts)
    (hparts : ∀ part ∈ parts', part ∈ parts) :
    PartsExpandAlike tree tree' directory directory' parts' :=
  fun part hpart => h part (hparts part hpart)

theorem PartsExpandAlike.documents {parts : List String} {documents : List Value}
    (h : PartsExpandAlike tree tree' directory directory' parts)
    (hdocuments : parts.mapM documentValue? = some documents) :
    ExpandsAlike tree tree' directory directory' documents := by
  intro d hd
  obtain ⟨part, hpart, hvalue⟩ := exists_of_mem_right (forall₂_of_mapM_eq_some hdocuments) hd
  exact h part hpart d hvalue

/-- An overlay file is applied document by document. -/
theorem toOption_applyOverlayFile (origin' : String) {path : FilePath} {parts : List String}
    (hwritten : WrittenIn tree path parts)
    (hexpand : PartsExpandAlike tree tree' path.directory directory' parts)
    (base : Value) :
    (applyOverlayFile tree base path).toOption =
      (parts.mapM documentValue?).bind fun documents =>
        (applyOverlays tree' origin' directory' base documents).toOption := by
  obtain ⟨text, htext, hholds⟩ := hwritten
  rw [applyOverlayFile, htext, ok_bind, toOption_bind, parseDocuments, toOption_mapError]
  rcases hholds with hholds | ⟨rfl, hholds⟩
  · rw [hholds]
    refine Option.bind_congr fun documents hdocuments => ?_
    exact toOption_applyOverlays_congr (hexpand.documents hdocuments) base
  · simp only [hholds, List.mapM_nil, Option.pure_def, Option.bind_some, applyOverlays_null]
    rfl

/-- Overlay files are applied document by document. -/
theorem toOption_applyOverlayFiles (origin' : String) {overlays : List FilePath}
    {rests : List (List String)}
    (hwritten : List.Forall₂ (WrittenIn tree) overlays rests)
    (hexpand : ∀ p ∈ overlays,
      PartsExpandAlike tree tree' p.directory directory' rests.flatten) (base : Value) :
    (overlays.foldlM (applyOverlayFile tree) base).toOption =
      (rests.flatten.mapM documentValue?).bind fun documents =>
        (applyOverlays tree' origin' directory' base documents).toOption := by
  induction hwritten generalizing base with
  | nil => rfl
  | @cons p parts overlays rests hp hrest ih =>
      obtain ⟨hexpandp, hexpands⟩ := List.forall_mem_cons.mp hexpand
      have hparts : ∀ part ∈ parts, part ∈ (parts :: rests).flatten := by
        simp +contextual
      have hrests : ∀ part ∈ rests.flatten, part ∈ (parts :: rests).flatten := by
        simp +contextual
      have hrun := ih fun p hp => (hexpands p hp).mono hrests
      rw [List.foldlM_cons, toOption_bind,
        toOption_applyOverlayFile origin' hp (hexpandp.mono hparts)]
      simp only [hrun, List.flatten_cons, List.mapM_append, Option.bind_eq_bind, Option.bind_assoc,
        Option.pure_def, Option.bind_some, applyOverlays_append, toOption_bind]
      exact Option.bind_congr fun documents _ => Option.bind_comm ..

/-! ## All layouts -/

/-- The bundle that documents describe which stand in one file. -/
def loadParts (tree : FileTree) (directory : FilePath) (parts : List String) : Option Bundle := do
  let documents ← parts.mapM documentValue?
  let d ← (resolveDocuments tree "" directory documents).toOption
  (Bundle.decode d).toOption

/-- However documents are laid out, they are loaded as if they stood in one file. -/
theorem toOption_loadFile {path : FilePath} {overlays : List FilePath} {bundle : String}
    {parts : List String} (hlayout : IsLayout tree path overlays bundle parts)
    (hexpand : ∀ p ∈ path :: overlays,
      PartsExpandAlike tree tree' p.directory directory' (bundle :: parts)) :
    (loadFile tree path overlays).toOption = loadParts tree' directory' (bundle :: parts) := by
  obtain ⟨front, rests, ⟨text, htext, hholds⟩, hrests, rfl⟩ := hlayout
  obtain ⟨hbundle, hoverlays⟩ := List.forall_mem_cons.mp hexpand
  have hholds : (readValues text).toOption = (bundle :: front).mapM documentValue? := by
    rcases hholds with hholds | ⟨h, -⟩
    · exact hholds
    · cases h
  have hcons : bundle :: (front ++ rests.flatten) = (bundle :: front) ++ rests.flatten := rfl
  have hfront : ∀ part ∈ bundle :: front, part ∈ bundle :: (front ++ rests.flatten) := by
    intro part hpart
    exact List.mem_append_left rests.flatten hpart
  have hrest : ∀ part ∈ rests.flatten, part ∈ bundle :: (front ++ rests.flatten) := by
    intro part hpart
    exact List.mem_append_right (bundle :: front) hpart
  have hfiles := toOption_applyOverlayFiles "" hrests
    fun p hp => (hoverlays p hp).mono hrest
  rw [loadFile, htext, ok_bind, toOption_bind, parseDocuments, toOption_mapError, hholds,
    loadParts, hcons, List.mapM_append]
  simp only [Option.bind_eq_bind, Option.bind_assoc, Option.pure_def, Option.bind_some,
    toOption_bind, decodeDocument, toOption_mapError, hfiles]
  refine Option.bind_congr fun documents hdocuments => ?_
  have halike := (hbundle.mono hfront).documents hdocuments
  rw [toOption_resolveDocuments_congr halike]
  cases forall₂_of_mapM_eq_some hdocuments with
  | cons hfirst hfronts =>
      simp only [List.cons_append, resolveDocuments_append, toOption_bind, Option.bind_assoc]
      exact Option.bind_comm ..

end

/-! ## Two layouts -/

/-- Layouts of the same documents are loaded alike: either both are, and as the same bundle, or
neither is. Where overlays stand does not matter, as long as the files that documents include are
the same. -/
theorem loadFile_layouts {tree tree' : FileTree} {path path' : FilePath}
    {overlays overlays' : List FilePath} {bundle : String} {parts : List String}
    (hlayout : IsLayout tree path overlays bundle parts)
    (hlayout' : IsLayout tree' path' overlays' bundle parts)
    (hincludes : ∀ p ∈ path :: overlays, ∀ p' ∈ path' :: overlays',
      IncludesAlike tree tree' p.directory p'.directory (bundle :: parts)) :
    (loadFile tree path overlays).toOption = (loadFile tree' path' overlays').toOption := by
  have hexpand : ∀ p ∈ path :: overlays, ∀ p' ∈ path' :: overlays',
      PartsExpandAlike tree tree' p.directory p'.directory (bundle :: parts) :=
    fun p hp p' hp' => (hincludes p hp p' hp').partsExpandAlike
  have hpath : path ∈ path :: overlays := by simp
  have hpath' : path' ∈ path' :: overlays' := by simp
  have hsecond : ∀ p' ∈ path' :: overlays',
      PartsExpandAlike tree' tree' p'.directory path'.directory
        (bundle :: parts) :=
    fun p' hp' => (hexpand path hpath p' hp').symm.trans (hexpand path hpath path' hpath')
  rw [toOption_loadFile hlayout fun p hp => hexpand p hp path' hpath',
    toOption_loadFile hlayout' hsecond]

def layoutTree (files : List (FilePath × List String)) : FileTree where
  top := files.map (fun file => (file.1, textFile (String.intercalate "---\n" file.2))) ++
    [(FilePath.ofText "ca.pem", textFile "text")]
  workingDirectory := []

def seriesPart (series : String) : String :=
  String.join ["series: ", series, "\n"]

def optionPart (target : String) : String :=
  String.join
    ["services:\n", " a:\n", "  charm: x\n", "  options:\n", "   cert: include-file://", target,
      "\n"]

def jointTree : FileTree :=
  layoutTree [("b.yaml", [seriesPart "x", optionPart "ca.pem", seriesPart "y"])]

/-- The same documents in a file each, with a file without documents among them. -/
def separateTree : FileTree :=
  layoutTree
    [("b.yaml", [seriesPart "x"]), ("o.yaml", [optionPart "ca.pem"]), ("e.yaml", []),
      ("p.yaml", [seriesPart "y"])]

theorem loadFile_layouts_joint :
    IsLayout jointTree "b.yaml" [] (seriesPart "x") [optionPart "ca.pem", seriesPart "y"] ∧
      IsLayout separateTree "b.yaml" ["o.yaml", "e.yaml", "p.yaml"] (seriesPart "x")
        [optionPart "ca.pem", seriesPart "y"] ∧
      (∀ p ∈ (["b.yaml"] : List FilePath),
        ∀ p' ∈ (["b.yaml", "o.yaml", "e.yaml", "p.yaml"] : List FilePath),
        IncludesAlike jointTree separateTree p.directory p'.directory
          [seriesPart "x", optionPart "ca.pem", seriesPart "y"]) ∧
      (loadFile jointTree "b.yaml" []).toOption.map (fun b => (b.series, b.applications.keys)) =
        some (some "y", ["a"]) ∧
      (loadFile jointTree "b.yaml" []).toOption =
        (loadFile separateTree "b.yaml" ["o.yaml", "e.yaml", "p.yaml"]).toOption := by
  have hjoint : IsLayout jointTree "b.yaml" [] (seriesPart "x")
      [optionPart "ca.pem", seriesPart "y"] :=
    ⟨[optionPart "ca.pem", seriesPart "y"], [], by decide +kernel, .nil, rfl⟩
  have hseparate : IsLayout separateTree "b.yaml" ["o.yaml", "e.yaml", "p.yaml"] (seriesPart "x")
      [optionPart "ca.pem", seriesPart "y"] :=
    ⟨[], [[optionPart "ca.pem"], [], [seriesPart "y"]], by decide +kernel,
      .cons (by decide +kernel) (.cons (by decide +kernel) (.cons (by decide +kernel) .nil)), rfl⟩
  have hincludes : ∀ p ∈ (["b.yaml"] : List FilePath),
      ∀ p' ∈ (["b.yaml", "o.yaml", "e.yaml", "p.yaml"] : List FilePath),
      IncludesAlike jointTree separateTree p.directory p'.directory
        [seriesPart "x", optionPart "ca.pem", seriesPart "y"] := by decide +kernel
  exact ⟨hjoint, hseparate, hincludes, by decide +kernel,
    loadFile_layouts hjoint hseparate hincludes⟩

/-- A bundle that includes its own file, and an overlay in that file or in one beside it. -/
def selfTree (front : List String) : FileTree :=
  layoutTree [("b.yaml", optionPart "b.yaml" :: front), ("o.yaml", [seriesPart "y"])]

/-- A document that includes a file of documents tells layouts apart. -/
theorem loadFile_self_layouts :
    IsLayout (selfTree [seriesPart "y"]) "b.yaml" [] (optionPart "b.yaml") [seriesPart "y"] ∧
      IsLayout (selfTree []) "b.yaml" ["o.yaml"] (optionPart "b.yaml") [seriesPart "y"] ∧
      (loadFile (selfTree [seriesPart "y"]) "b.yaml" []).toOption.isSome ∧
      (loadFile (selfTree []) "b.yaml" ["o.yaml"]).toOption.isSome ∧
      (loadFile (selfTree [seriesPart "y"]) "b.yaml" []).toOption ≠
        (loadFile (selfTree []) "b.yaml" ["o.yaml"]).toOption := by
  refine ⟨⟨[seriesPart "y"], [], by decide +kernel, .nil, rfl⟩,
    ⟨[], [[seriesPart "y"]], by decide +kernel, .cons (by decide +kernel) .nil, rfl⟩, ?_⟩
  decide +kernel

end BundleCheck
