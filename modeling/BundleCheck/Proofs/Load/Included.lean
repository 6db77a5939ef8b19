import BundleCheck.Proofs.Bundle.Readable
import BundleCheck.Proofs.Load
import BundleCheck.Proofs.Overlay.Options
import BundleCheck.Proofs.Yaml.Equality

/-! # Included files in a loaded bundle

An option text of a loaded bundle is traced back to the document that it was written in. A
directive that is left over in the bundle stood where expansion does not look: in the section
`services` beside `applications`, or under a key below a tag. -/

namespace BundleCheck

open Yaml
open Overlay (rootOf Each FieldHolds PartHolds SectionHolds sectionKind?)
open Include (OptionPlace optionsOf Becomes IsDirective Form Expands)

variable {tree : FileTree} {directory : FilePath}

/-! ## Lists in step -/

theorem forall₂_iff_of_forall₂ {α β : Type} {R S : α → β → Prop} {P : α → Prop} {xs : List α}
    {ys : List β} (h : List.Forall₂ R xs ys) (hiff : ∀ x y, R x y → (S x y ↔ P x)) :
    List.Forall₂ S xs ys ↔ ∀ x ∈ xs, P x := by
  induction h with
  | nil => simp
  | cons hxy _ ih => simp [ih, hiff _ _ hxy]

/-! ## One document -/

def OptionPlace.Becomes (tree : FileTree) (directory : FilePath) (o o' : OptionPlace) : Prop :=
  ∃ v, o' = { o with value := v } ∧ Include.Becomes tree directory o.value v

/-- All options of a document become what they should exactly if those that expansion does not
reach are to stay as they are. -/
theorem forall₂_becomes_iff {d d' : Value} (hd : d.DistinctKeys)
    (h : Include.expand tree directory d = .ok d') :
    List.Forall₂ (OptionPlace.Becomes tree directory) (optionsOf d) (optionsOf d') ↔
      ∀ o ∈ optionsOf d, ¬ o.IsReached (rootOf d) →
        Include.Becomes tree directory o.value o.value := by
  refine forall₂_iff_of_forall₂ (Include.forall₂_expands hd h) fun o o' ho => ?_
  obtain ⟨v, rfl, hreached, hkept⟩ := ho
  have hvalue : OptionPlace.Becomes tree directory o { o with value := v } ↔
      Include.Becomes tree directory o.value v := by
    constructor
    · rintro ⟨w, hw, h⟩
      cases hw
      exact h
    · exact fun h => ⟨v, rfl, h⟩
  rw [hvalue]
  constructor
  · intro h hnot
    rwa [hkept hnot] at h
  · intro h
    by_cases hr : o.IsReached (rootOf d)
    · exact Include.expandValue_eq_ok_iff.mp (hreached hr)
    · rw [hkept hr]
      exact h hr

/-! ## Where an option comes from -/

/-- The value is what expansion makes of an option in a file's documents. -/
def ComesFrom (tree : FileTree) (file : DocumentFile) (w : Value) : Prop :=
  ∃ d ∈ file.documents, ∃ o ∈ optionsOf d,
    (o.IsReached (rootOf d) → Include.Becomes tree file.directory o.value w) ∧
    (¬ o.IsReached (rootOf d) → o.value = w)

theorem comesFrom_of_expand {file : DocumentFile} {d d' : Value} (hd : d.DistinctKeys)
    (hmem : d ∈ file.documents) (h : Include.expand tree file.directory d = .ok d') :
    ∀ o ∈ optionsOf d', ComesFrom tree file o.value := by
  intro o' ho'
  obtain ⟨o, ho, v, rfl, hreached, hkept⟩ := exists_of_mem_right (Include.forall₂_expands hd h) ho'
  exact ⟨d, hmem, o, ho, fun hr => Include.expandValue_eq_ok_iff.mp (hreached hr),
    fun hr => (hkept hr).symm⟩

/-- All options of a document come from the documents of some files. -/
structure IsTraced (tree : FileTree) (files : List DocumentFile) (d : Value) : Prop where
  distinctKeys : d.DistinctKeys
  options : ∀ o ∈ optionsOf d, ∃ file ∈ files, ComesFrom tree file o.value

section

variable {files : List DocumentFile} {file : DocumentFile} {origin : String}

theorem isTraced_of_expand (hfile : file ∈ files) {d d' : Value} (hd : d.DistinctKeys)
    (hmem : d ∈ file.documents) (h : Include.expand tree file.directory d = .ok d') :
    IsTraced tree files d' where
  distinctKeys := Include.distinctKeys_expand hd h
  options o ho := ⟨file, hfile, comesFrom_of_expand hd hmem h o ho⟩

theorem IsTraced.apply {base overlay d : Value} (hbase : IsTraced tree files base)
    (hoverlay : IsTraced tree files overlay) (h : Overlay.apply origin base overlay = .ok d) :
    IsTraced tree files d where
  distinctKeys := Overlay.distinctKeys_apply hbase.distinctKeys hoverlay.distinctKeys h
  options := Overlay.forall_optionsOf_apply
    (P := fun w => ∃ file ∈ files, ComesFrom tree file w) hbase.distinctKeys
    hoverlay.distinctKeys hbase.options hoverlay.options h

theorem IsTraced.applyOverlays (hfile : file ∈ files) {base d : Value} {overlays : List Value}
    (hdistinct : ∀ overlay ∈ overlays, overlay.DistinctKeys)
    (hmem : ∀ overlay ∈ overlays, overlay ∈ file.documents) (hbase : IsTraced tree files base)
    (h : applyOverlays tree origin file.directory base overlays = .ok d) :
    IsTraced tree files d := by
  refine foldlM_preserves (fun base d overlay hoverlay hbase h => ?_) hbase h
  obtain ⟨expanded, hexpanded, happly⟩ := bind_eq_ok_iff.mp h
  exact hbase.apply (isTraced_of_expand hfile (hdistinct overlay hoverlay) (hmem overlay hoverlay)
    hexpanded) happly

theorem isTraced_of_resolveDocuments (hfile : file ∈ files)
    (hdistinct : ∀ d ∈ file.documents, d.DistinctKeys) {d : Value}
    (h : resolveDocuments tree origin file.directory file.documents = .ok d) :
    IsTraced tree files d := by
  cases hdocuments : file.documents with
  | nil =>
      rw [hdocuments] at h
      cases h
  | cons first overlays =>
      rw [hdocuments] at h
      cases first with
      | mapping root =>
          obtain ⟨base, hbase, h⟩ := bind_eq_ok_iff.mp h
          have hall : ∀ overlay ∈ overlays, overlay ∈ file.documents := by
            simp +contextual [hdocuments]
          have hfirst : Value.mapping root ∈ file.documents := by simp [hdocuments]
          have htraced := isTraced_of_expand hfile (hdistinct _ hfirst) hfirst hbase
          exact htraced.applyOverlays hfile (fun overlay ho => hdistinct overlay (hall overlay ho))
            hall h
      | _ => cases h

end

/-! ## Decoding -/

variable {P : Value → Prop}

theorem eq_options_of_ofName? {name : String}
    (h : ApplicationField.ofName? name = some .options) : name = "options" := by
  unfold ApplicationField.ofName? at h
  split at h <;> simp_all

theorem ofName_of_ofName? {name : String} (h : BundleField.ofName? name = some .applications) :
    (some name).map Overlay.SectionKind.ofName = some .applications := by
  unfold BundleField.ofName? at h
  split at h <;> first | rfl | cases h

theorem eq_string_of_read {v : Value} {s : String}
    (h : (OptionValue.read v : Except Mismatch OptionValue) = .ok (.string s)) :
    v = .string s := by
  rw [OptionValue.read, bind_eq_ok_iff] at h
  obtain ⟨c, hc, h⟩ := h
  split at h
  · cases h
  · split at h <;> cases h
  · cases h
  · cases h
    cases v with
    | string t => cases hc; rfl
    | number n => cases n <;> cases hc
    | _ => cases hc
  · cases h

def Bundle.optionTexts (b : Bundle) : List String :=
  b.applications.values.flatMap fun a => a.options.values.filterMap OptionValue.text?

theorem Bundle.forall_optionTexts_iff {b : Bundle} {Q : String → Prop} :
    (∀ s ∈ b.optionTexts, Q s) ↔
      ∀ e ∈ b.applications.entries, ∀ o ∈ e.2.options.entries, ∀ s, o.2 = .string s → Q s := by
  have htext : ∀ (x : OptionValue) (s : String), x.text? = some s ↔ x = .string s := by
    intro x s
    cases x <;> simp [OptionValue.text?]
  simp only [optionTexts, SortedMap.values, List.forall_mem_flatMap, List.forall_mem_map,
    List.forall_mem_filterMap, htext]

theorem holds_of_readOptions {v : Value} {m : SortedMap String OptionValue}
    (hv : Each (fun _ => P) (rootOf v)) (h : (readOptions v : Except Mismatch _) = .ok m) :
    ∀ o ∈ m.entries, ∀ s, o.2 = .string s → P (.string s) := by
  refine readOptions_forall_of_mem (P := fun x => ∀ s, x = .string s → P (.string s))
    (fun parts hparts e he x hx s hs => ?_) h
  subst hparts hs
  rw [← eq_string_of_read hx]
  exact hv e he

theorem holds_of_readApplication {v : Value} {a : Application} (hv : Each (FieldHolds P) (rootOf v))
    (h : (Application.read v : Except Mismatch _) = .ok a) :
    ∀ o ∈ a.options.entries, ∀ s, o.2 = .string s → P (.string s) := by
  rw [Application.read, bind_eq_ok_iff] at h
  obtain ⟨es, hes, h⟩ := h
  obtain rfl := Source.eq_getD_entries?_of_entries hes
  obtain ⟨⟨charm?, app⟩, hentries, h⟩ := bind_eq_ok_iff.mp h
  have happ : ∀ o ∈ app.options.entries, ∀ s, o.2 = .string s → P (.string s) := by
    refine Source.readEntries_preserves_of_mem
      (P := fun a : Option String × Application =>
        ∀ o ∈ a.2.options.entries, ∀ s, o.2 = .string s → P (.string s))
      (fun b b' name field e he hname hfield hb hread => ?_) (by simp [SortedMap.empty]) hentries
    obtain ⟨charm, app⟩ := b
    cases field with
    | options =>
        obtain ⟨m, hm, hread⟩ := bind_eq_ok_iff.mp hread
        cases hread
        refine holds_of_readOptions (hv e he ?_) hm
        rw [Source.text?_of_text hname, eq_options_of_ofName? hfield]
    | _ =>
        obtain ⟨x, -, hread⟩ := bind_eq_ok_iff.mp hread
        cases hread
        exact hb
  cases charm? with
  | none => cases h
  | some charm =>
      cases h
      exact happ

theorem holds_of_decode {d : Value} {b : Bundle} (hd : Each (SectionHolds P) (rootOf d))
    (h : Bundle.decode d = .ok b) :
    ∀ s ∈ b.optionTexts, P (.string s) := by
  rw [Bundle.forall_optionTexts_iff]
  refine (Bundle.decode_preserves_of_mem (P := fun b => ∀ e ∈ b.applications.entries,
    ∀ o ∈ e.2.options.entries, ∀ s, o.2 = .string s → P (.string s)) (by simp [SortedMap.empty])
    (fun _ _ _ _ _ _ _ hb => hb) (fun b b' name field e he hname hfield hb hread => ?_) h).1
  cases field with
  | applications =>
      obtain ⟨m, hm, hread⟩ := bind_eq_ok_iff.mp hread
      cases hread
      refine uniqueMap_forall_of_mem (P := fun e : String × Application =>
        ∀ o ∈ e.2.options.entries, ∀ s, o.2 = .string s → P (.string s)) ?_ hm
      intro parts hparts a ha k v _ hv
      refine holds_of_readApplication ?_ hv
      have hsection := hd e he ?_
      · rw [hparts] at hsection
        exact hsection a ha
      · rw [Source.text?_of_text hname]
        exact ofName_of_ofName? hfield
  | _ =>
      obtain ⟨x, -, hread⟩ := bind_eq_ok_iff.mp hread
      cases hread
      exact hb

/-! ## Bundles that are loaded -/

theorem isTraced_of_loadDocuments {bundle : DocumentFile} {overlays : List DocumentFile}
    (hdistinct : ∀ file ∈ bundle :: overlays, ∀ d ∈ file.documents, d.DistinctKeys) {b : Bundle}
    (h : loadDocuments tree bundle overlays = .ok b) :
    ∃ d, IsTraced tree (bundle :: overlays) d ∧ Bundle.decode d = .ok b := by
  obtain ⟨base, hbase, h⟩ := bind_eq_ok_iff.mp h
  obtain ⟨d, hd, h⟩ := bind_eq_ok_iff.mp h
  refine ⟨d, ?_, mapError_eq_ok_iff.mp h⟩
  have htraced : IsTraced tree (bundle :: overlays) base :=
    isTraced_of_resolveDocuments (by simp) (hdistinct bundle (by simp)) hbase
  refine foldlM_preserves (fun m m' file hfile hm hstep => ?_) htraced hd
  have hmem : file ∈ bundle :: overlays := by simp [hfile]
  exact hm.applyOverlays hmem (hdistinct file hmem) (fun _ ho => ho) hstep

/-- The text is the content of the file that a directive names. -/
def IsIncluded (tree : FileTree) (directory : FilePath) (v : Value) (s : String) : Prop :=
  ∃ form target, IsDirective v form target ∧
    ∃ bytes, tree.readBytes (FilePath.join directory target) = .ok bytes ∧ s = form.render bytes

/-- A directive that is left of an option is included content, or was not reached. -/
theorem isIncluded_or_of_becomes {v : Value} {s : String} {form : Form}
    (hs : form.opening <+: s.toList) (h : Include.Becomes tree directory v (.string s)) :
    IsIncluded tree directory v s := by
  by_cases hv : ∃ form target, IsDirective v form target
  · obtain ⟨form, target, hv⟩ := hv
    obtain ⟨bytes, hbytes, hs⟩ := h.directive form target hv
    exact ⟨form, target, hv, bytes, hbytes, Value.string.inj hs⟩
  · have hself : Value.string s = v :=
      h.other fun form target hdirective => hv ⟨form, target, hdirective⟩
    obtain ⟨rest, hrest⟩ := hs
    refine absurd ⟨form, String.ofList rest, s, ?_, ?_⟩ hv
    · rw [← hself]
      rfl
    · rw [String.toList_ofList, hrest]

/-- Expansion replaces every directive among the options of a document, in both sections of
applications, exactly if each one that it does not reach is to stay as it is; and a text of a
loaded bundle that begins as a directive does is the content of an included file, or stood in a
document where expansion does not reach. -/
theorem directives_replaced_iff (tree : FileTree) :
    (∀ directory d d', d.DistinctKeys → Include.expand tree directory d = .ok d' →
      (List.Forall₂ (OptionPlace.Becomes tree directory) (optionsOf d) (optionsOf d') ↔
        ∀ o ∈ optionsOf d, ¬ o.IsReached (rootOf d) →
          Include.Becomes tree directory o.value o.value)) ∧
      ∀ path overlays b, loadFile tree path overlays = .ok b → ∀ s ∈ b.optionTexts,
        ∀ form : Form, form.opening <+: s.toList → ∃ p ∈ path :: overlays, ∃ file,
          readDocuments tree p = .ok file ∧ ∃ d ∈ file.documents, ∃ o ∈ optionsOf d,
            IsIncluded tree file.directory o.value s ∨
              ¬ o.IsReached (rootOf d) ∧ o.value = .string s := by
  refine ⟨fun _ _ _ => forall₂_becomes_iff, fun path overlays b h s hs form hform => ?_⟩
  obtain ⟨bundle, files, hbundle, hfiles, h⟩ := loadFile_eq_ok_iff.mp h
  have hread : List.Forall₂ (fun p file => readDocuments tree p = .ok file) (path :: overlays)
      (bundle :: files) := .cons hbundle hfiles
  have hdistinct : ∀ file ∈ bundle :: files, ∀ d ∈ file.documents, d.DistinctKeys := by
    intro file hfile
    obtain ⟨p, -, hp⟩ := exists_of_mem_right hread hfile
    exact distinctKeys_of_readDocuments hp
  obtain ⟨d, htraced, hdecode⟩ := isTraced_of_loadDocuments hdistinct h
  have hoptions := holds_of_decode (P := fun w => ∃ file ∈ bundle :: files, ComesFrom tree file w)
    (Overlay.forall_optionsOf_iff.mp htraced.options) hdecode
  obtain ⟨file, hfile, document, hdocument, o, ho, hreached, hkept⟩ := hoptions s hs
  obtain ⟨p, hp, hfile⟩ := exists_of_mem_right hread hfile
  refine ⟨p, hp, file, hfile, document, hdocument, o, ho, ?_⟩
  by_cases hr : o.IsReached (rootOf document)
  · exact .inl (isIncluded_or_of_becomes hform (hreached hr))
  · exact .inr ⟨hr, hkept hr⟩

/-- A bundle, an overlay with an application beside the section `applications`, and a file that
the application includes. -/
def certificateTree : FileTree where
  top :=
    [("b.yaml", textFile "applications:\n  a:\n    charm: x\n"),
      ("o.yaml", textFile (String.join
        ["applications: {}\n", "services:\n", "  b:\n", "    charm: y\n", "    options:\n",
          "      cert: include-file://ca.pem\n"])),
      ("ca.pem", textFile "text")]
  workingDirectory := []

def certificateSection (cert : String) : Value × Value :=
  (.string "services", .mapping [(.string "b", .mapping
    [(.string "charm", .string "y"),
      (.string "options", .mapping [(.string "cert", .string cert)])])])

def certificateDocument (cert : String) : Value :=
  .mapping [certificateSection cert]

def certificateOverlay : Value :=
  .mapping [(.string "applications", .mapping []), certificateSection "include-file://ca.pem"]

theorem optionTexts_certificateTree :
    ∃ b, loadFile certificateTree "b.yaml" ["o.yaml"] = .ok b ∧
      "include-file://ca.pem" ∈ b.optionTexts := by
  have htexts : (loadFile certificateTree "b.yaml" ["o.yaml"]).toOption.map Bundle.optionTexts =
      some ["include-file://ca.pem"] := by decide +kernel
  obtain ⟨b, hb, hs⟩ := Option.map_eq_some_iff.mp htexts
  exact ⟨b, toOption_eq_some_iff.mp hb, by simp [hs]⟩

theorem directives_replaced_certificate :
    Include.expand certificateTree "." (certificateDocument "include-file://ca.pem") =
        .ok (certificateDocument "text") ∧
      (List.Forall₂ (OptionPlace.Becomes certificateTree ".")
        (optionsOf (certificateDocument "include-file://ca.pem"))
        (optionsOf (certificateDocument "text")) ↔
          ∀ o ∈ optionsOf (certificateDocument "include-file://ca.pem"),
            ¬ o.IsReached (rootOf (certificateDocument "include-file://ca.pem")) →
              Include.Becomes certificateTree "." o.value o.value) ∧
      ∃ b, loadFile certificateTree "b.yaml" ["o.yaml"] = .ok b ∧
        "include-file://ca.pem" ∈ b.optionTexts ∧
        ∃ p ∈ (["b.yaml", "o.yaml"] : List FilePath), ∃ file,
          readDocuments certificateTree p = .ok file ∧ ∃ d ∈ file.documents, ∃ o ∈ optionsOf d,
            IsIncluded certificateTree file.directory o.value "include-file://ca.pem" ∨
              ¬ o.IsReached (rootOf d) ∧ o.value = .string "include-file://ca.pem" := by
  have hexpand : Include.expand certificateTree "."
      (certificateDocument "include-file://ca.pem") = .ok (certificateDocument "text") := by
    decide +kernel
  have hdistinct : (certificateDocument "include-file://ca.pem").DistinctKeys := by
    decide +kernel
  obtain ⟨b, hb, hs⟩ := optionTexts_certificateTree
  refine ⟨hexpand, (directives_replaced_iff certificateTree).1 _ _ _ hdistinct hexpand, b, hb, hs,
    ?_⟩
  exact (directives_replaced_iff certificateTree).2 _ _ b hb _ hs .text (by decide)

/-- In a document with both sections expansion looks into `applications` only: a directive in the
other section stays, and gets into the bundle. -/
theorem directive_left_beside_applications :
    Include.expand certificateTree "." certificateOverlay = .ok certificateOverlay ∧
      (∃ o ∈ optionsOf certificateOverlay, IsDirective o.value .text "ca.pem" ∧
        certificateTree.readBytes (FilePath.join "." "ca.pem") = .ok [116, 101, 120, 116] ∧
        o.value ≠ .string (Form.text.render [116, 101, 120, 116])) ∧
      ∃ b, loadFile certificateTree "b.yaml" ["o.yaml"] = .ok b ∧
        "include-file://ca.pem" ∈ b.optionTexts := by
  refine ⟨by decide +kernel, ?_, optionTexts_certificateTree⟩
  refine ⟨_, List.mem_cons_self, ⟨_, rfl, ?_⟩, ?_⟩
  · decide
  · decide +kernel

end BundleCheck
