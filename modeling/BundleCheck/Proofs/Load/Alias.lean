import BundleCheck.Proofs.Include.Options
import BundleCheck.Proofs.Load
import BundleCheck.Proofs.Overlay.Alias
import BundleCheck.Proofs.Yaml.Equality
import BundleCheck.Proofs.Yaml.Reading

/-! # Applications under either name

Documents list their applications under one of two names. Which of them each document has does
not matter to what is loaded. -/

namespace BundleCheck

open Yaml
open Overlay (rootOf swapped swapNames otherName otherKey HasOneName swapped_mapping)

variable {tree : FileTree} {origin : String} {directory : FilePath}

/-! ## Renaming -/

def CarriesBoth (d : Value) : Prop :=
  (rootOf d).containsName "applications" = true ∧ (rootOf d).containsName "services" = true

instance (d : Value) : Decidable (CarriesBoth d) :=
  inferInstanceAs (Decidable (_ ∧ _))

/-- A document without two sections of applications is kept, or the section gets the other name. -/
def Renamed (d d' : Value) : Prop :=
  ¬ CarriesBoth d ∧ (d' = d ∨ d' = swapped d)

theorem swapNames_eq_self {root : Mapping}
    (happlications : root.containsName "applications" = false)
    (hservices : root.containsName "services" = false) : swapNames root = root := by
  have hne : ∀ {name : String}, root.containsName name = false → ∀ e ∈ root,
      e.1 ≠ .string name := by
    intro name hname e he hkey
    simp only [Mapping.containsName, Mapping.contains, List.any_eq_false] at hname
    exact hname e he (Value.same_string_iff.mpr hkey)
  have hkey : ∀ e ∈ root, (otherKey e.1, e.2) = e := by
    intro e he
    refine Prod.ext ?_ rfl
    cases hk : e.1 with
    | string name =>
        rcases Overlay.otherName_cases name with rfl | rfl | hself
        · exact absurd hk (hne happlications e he)
        · exact absurd hk (hne hservices e he)
        · exact congrArg Value.string hself
    | _ => rfl
  exact (List.map_congr_left hkey).trans (List.map_id' root)

theorem swapped_eq_self {d : Value} (h : swapNames (rootOf d) = rootOf d) : swapped d = d := by
  unfold swapped
  cases hroot : d.entries? with
  | none => rfl
  | some root =>
      rw [rootOf, hroot, Option.getD_some] at h
      simp only [h]
      exact withEntries_of_entries? hroot

/-- A document in which the names were exchanged is the same, or had one of them. -/
theorem Renamed.cases {d d' : Value} (h : Renamed d d') :
    d' = d ∨ HasOneName d ∧ d' = swapped d := by
  obtain ⟨hboth, rfl | rfl⟩ := h
  · exact .inl rfl
  · unfold CarriesBoth at hboth
    unfold HasOneName
    cases happlications : (rootOf d).containsName "applications" with
    | true =>
        cases hservices : (rootOf d).containsName "services" with
        | true => exact absurd ⟨happlications, hservices⟩ hboth
        | false => exact .inr ⟨rfl, rfl⟩
    | false =>
        cases hservices : (rootOf d).containsName "services" with
        | true => exact .inr ⟨rfl, rfl⟩
        | false => exact .inl (swapped_eq_self (swapNames_eq_self happlications hservices))

/-! ## Expansion -/

theorem inEntry_swapNames (f : Value → Except Failure Value) (root : Mapping) (name : String) :
    Include.inEntry (otherName name) f (swapNames root) =
      (Include.inEntry name f root).map swapNames := by
  unfold Include.inEntry
  rw [Overlay.getName?_swapNames]
  cases root.getName? name with
  | none => rfl
  | some v =>
      dsimp only
      cases f v with
      | error cause => rfl
      | ok w => exact congrArg Except.ok (Overlay.insert_swapNames root (.string name) w)

theorem inMapping_swapped {f g : Mapping → Except Failure Mapping} {d : Value}
    (h : ∀ root, g (swapNames root) = (f root).map swapNames) :
    Include.inMapping g (swapped d) = (Include.inMapping f d).map swapped := by
  unfold Include.inMapping
  rw [Overlay.entries?_swapped]
  cases hroot : d.entries? with
  | none => rfl
  | some root =>
      simp only [Option.map_some, h]
      cases f root with
      | error cause => rfl
      | ok merged =>
          have hd : swapped d = d.withEntries (swapNames root) := by rw [swapped, hroot]
          refine congrArg Except.ok ?_
          rw [Overlay.swapped_withEntries, hd, withEntries_withEntries]

theorem sectionName_swapNames {root : Mapping}
    (h : root.containsName "applications" = !root.containsName "services") :
    Include.sectionName (swapNames root) = otherName (Include.sectionName root) := by
  have happlications : (swapNames root).containsName "applications" =
      root.containsName "services" := Overlay.containsName_swapNames root "services"
  unfold Include.sectionName
  rw [happlications, h]
  cases root.containsName "services" <;> rfl

theorem expand_swapped {d : Value} (hd : HasOneName d) :
    Include.expand tree directory (swapped d) =
      (Include.expand tree directory d).map swapped := by
  rw [Include.expand_eq, Include.expand_eq, Overlay.rootOf_swapped, sectionName_swapNames hd]
  exact inMapping_swapped fun root => inEntry_swapNames _ root _

theorem hasOneName_expand {d d' : Value} (hd : HasOneName d)
    (h : Include.expand tree directory d = .ok d') : HasOneName d' := by
  have hentry : ∀ {name : String} {f : Value → Except Failure Value} {root root' : Mapping},
      Include.inEntry name f root = .ok root' →
        ∀ n, root'.containsName n = root.containsName n := by
    intro name f root root' h n
    unfold Include.inEntry at h
    split at h
    next v hv =>
      obtain ⟨w, -, rfl⟩ := map_eq_ok_iff.mp h
      refine Mapping.containsName_insert_eq_self fun hsame => ?_
      rw [Value.string.inj (Value.same_string_iff.mp hsame)] at hv
      rw [Mapping.containsName, Mapping.contains_eq_isSome_get?]
      exact Option.isSome_iff_exists.mpr ⟨v, hv⟩
    · cases h
      rfl
  unfold HasOneName at hd ⊢
  rw [Include.expand_eq] at h
  rcases Include.inMapping_eq_ok h with ⟨-, rfl⟩ | h
  · exact hd
  · rw [hentry h, hentry h, hd]

/-! ## Decoding -/

/-- The two names are names of one field, and other names stay. -/
theorem ofName?_otherName (name : String) :
    BundleField.ofName? (otherName name) = BundleField.ofName? name ∧
      (BundleField.ofName? name = none → otherName name = name) := by
  rcases Overlay.otherName_cases name with rfl | rfl | hself
  · exact ⟨rfl, nofun⟩
  · exact ⟨rfl, nofun⟩
  · exact ⟨by rw [hself], fun _ => hself⟩

theorem readSections_swapNames (document document' : Value) (seen : List BundleField) (b : Bundle)
    (es : Mapping) :
    (Bundle.readSections document' seen b (swapNames es) : Except Mismatch Bundle) =
      Bundle.readSections document seen b es := by
  induction es generalizing seen b with
  | nil => rfl
  | cons e rest ih =>
      obtain ⟨k, part⟩ := e
      have hfield : ∀ field, (Bundle.readField document' b field part : Except Mismatch Bundle) =
          Bundle.readField document b field part := by
        intro field
        cases field <;> rfl
      change (Bundle.readSections document' seen b ((otherKey k, part) :: swapNames rest) :
        Except Mismatch Bundle) = _
      rw [Bundle.readSections, Bundle.readSections]
      cases k with
      | string name =>
          obtain ⟨hknown, hkept⟩ := ofName?_otherName name
          rw [otherKey, Source.text_string, Source.text_string, ok_bind, ok_bind]
          simp only [hknown, hfield, ih]
          split
          next hnone => rw [hkept hnone]
          · rfl
      | _ =>
          simp only [otherKey, hfield, ih]
          rfl

theorem decode_swapped (d : Value) : Bundle.decode (swapped d) = Bundle.decode d := by
  cases hroot : d.entries? with
  | none => rw [swapped, hroot]
  | some root =>
      have hswapped : (swapped d).entries? = some (swapNames root) := by
        rw [Overlay.entries?_swapped, hroot, Option.map_some]
      unfold Bundle.decode Bundle.read
      rw [Source.entries_of_entries? hroot, Source.entries_of_entries? hswapped, ok_bind, ok_bind,
        readSections_swapNames d (swapped d)]
      rfl

/-! ## Overlays -/

theorem expand_apply_renamed {base overlay overlay' : Value} (h : Renamed overlay overlay') :
    (do Overlay.apply origin base (← Include.expand tree directory overlay')) =
      (do Overlay.apply origin base (← Include.expand tree directory overlay)) := by
  rcases h.cases with rfl | ⟨hone, rfl⟩
  · rfl
  · rw [expand_swapped hone, map_bind]
    simp only [Overlay.apply_swapped]

/-- Overlays do the same under either name. -/
theorem applyOverlays_renamed {overlays overlays' : List Value}
    (h : List.Forall₂ Renamed overlays overlays') (base : Value) :
    applyOverlays tree origin directory base overlays' =
      applyOverlays tree origin directory base overlays := by
  unfold applyOverlays
  induction h generalizing base with
  | nil => rfl
  | cons hfirst _ ih =>
      rw [List.foldlM_cons, List.foldlM_cons, expand_apply_renamed hfirst]
      exact bind_congr ih

/-- Overlays do the same to a document under either name. -/
theorem swapped_applyOverlays {base : Value} (hbase : HasOneName base) (overlays : List Value) :
    applyOverlays tree origin directory (swapped base) overlays =
      (applyOverlays tree origin directory base overlays).map swapped := by
  refine foldlM_map HasOneName swapped (fun base overlay _ hbase => ?_)
    (fun base base' overlay _ hbase h => ?_) hbase
  · rw [bind_map]
    simp only [Overlay.swapped_apply hbase]
  · obtain ⟨expanded, -, h⟩ := bind_eq_ok_iff.mp h
    exact Overlay.hasOneName_apply hbase h

theorem hasOneName_applyOverlays {base d : Value} {overlays : List Value}
    (hbase : HasOneName base)
    (h : applyOverlays tree origin directory base overlays = .ok d) : HasOneName d := by
  refine foldlM_preserves (fun base base' overlay _ hbase h => ?_) hbase h
  obtain ⟨expanded, -, h⟩ := bind_eq_ok_iff.mp h
  exact Overlay.hasOneName_apply hbase h

/-! ## Files -/

structure DocumentFile.Renamed (file file' : DocumentFile) : Prop where
  origin : file'.origin = file.origin
  directory : file'.directory = file.directory
  documents : List.Forall₂ BundleCheck.Renamed file.documents file'.documents

/-- Under either name the documents of a bundle are resolved to the same document, but for the
name of its section. -/
theorem resolveDocuments_renamed {documents documents' : List Value}
    (h : List.Forall₂ Renamed documents documents') :
    resolveDocuments tree origin directory documents' =
        resolveDocuments tree origin directory documents ∨
      resolveDocuments tree origin directory documents' =
          (resolveDocuments tree origin directory documents).map swapped ∧
        ∀ d, resolveDocuments tree origin directory documents = .ok d → HasOneName d := by
  cases h with
  | nil => exact .inl rfl
  | @cons first first' overlays overlays' hfirst hoverlays =>
      rcases hfirst.cases with rfl | ⟨hone, rfl⟩
      · left
        cases first' with
        | mapping root =>
            rw [resolveDocuments_mapping, resolveDocuments_mapping]
            exact bind_congr fun base => applyOverlays_renamed hoverlays base
        | _ => rfl
      · cases first with
        | mapping root =>
            right
            rw [swapped_mapping, resolveDocuments_mapping, resolveDocuments_mapping,
              ← swapped_mapping, expand_swapped hone, map_bind, bind_map]
            refine ⟨bind_congr_ok fun base hbase => ?_, fun d hd => ?_⟩
            · rw [applyOverlays_renamed hoverlays,
                swapped_applyOverlays (hasOneName_expand hone hbase)]
            · obtain ⟨base, hbase, hd⟩ := bind_eq_ok_iff.mp hd
              exact hasOneName_applyOverlays (hasOneName_expand hone hbase) hd
        | tagged tag v =>
            left
            unfold swapped
            split <;> rfl
        | _ => exact .inl rfl

theorem applyTo_renamed {overlays overlays' : List DocumentFile}
    (h : List.Forall₂ DocumentFile.Renamed overlays overlays') (base : Value) :
    overlays'.foldlM (DocumentFile.applyTo tree) base =
      overlays.foldlM (DocumentFile.applyTo tree) base := by
  induction h generalizing base with
  | nil => rfl
  | cons hfile _ ih =>
      rw [List.foldlM_cons, List.foldlM_cons, DocumentFile.applyTo, DocumentFile.applyTo,
        hfile.origin, hfile.directory, applyOverlays_renamed hfile.documents]
      exact bind_congr ih

theorem swapped_applyTo {base : Value} (hbase : HasOneName base) (overlays : List DocumentFile) :
    overlays.foldlM (DocumentFile.applyTo tree) (swapped base) =
      (overlays.foldlM (DocumentFile.applyTo tree) base).map swapped :=
  foldlM_map HasOneName swapped (fun _ file _ hbase => swapped_applyOverlays hbase file.documents)
    (fun _ _ _ _ => hasOneName_applyOverlays) hbase

/-- Documents are loaded as the same bundle, or refused for the same reason, whichever of its two
names the section of applications has in each of them. -/
theorem loadDocuments_renamed {bundle bundle' : DocumentFile}
    {overlays overlays' : List DocumentFile} (hbundle : bundle.Renamed bundle')
    (hoverlays : List.Forall₂ DocumentFile.Renamed overlays overlays') :
    loadDocuments tree bundle' overlays' = loadDocuments tree bundle overlays := by
  have hdecode : ∀ d, decodeDocument bundle.origin (swapped d) =
      decodeDocument bundle.origin d := by
    intro d
    rw [decodeDocument, decodeDocument, decode_swapped]
  unfold loadDocuments
  rw [hbundle.origin, hbundle.directory]
  simp only [applyTo_renamed hoverlays]
  rcases resolveDocuments_renamed hbundle.documents with h | ⟨h, hone⟩
  · rw [h]
  · rw [h, map_bind]
    refine bind_congr_ok fun base hbase => ?_
    rw [swapped_applyTo (hone base hbase), map_bind]
    simp only [hdecode]

def listedUnder (name : String) (applications : Mapping) : Value :=
  .mapping [(.string name, .mapping applications)]

/-- An application, and an overlay that adds another one. -/
def namedBundle (base overlay : String) : DocumentFile where
  origin := "b.yaml"
  directory := "."
  documents :=
    [listedUnder base [(.string "a", .mapping [(.string "charm", .string "x")])],
      listedUnder overlay [(.string "b", .mapping [(.string "charm", .string "y")])]]

def namedOverlay (name : String) : DocumentFile where
  origin := "o.yaml"
  directory := "."
  documents := [listedUnder name [(.string "a", .null)]]

theorem loadDocuments_renamed_everywhere :
    (namedBundle "services" "applications").Renamed (namedBundle "applications" "services") ∧
      List.Forall₂ DocumentFile.Renamed [namedOverlay "services"] [namedOverlay "applications"] ∧
      (loadDocuments ⟨[], []⟩ (namedBundle "services" "applications")
        [namedOverlay "services"]).toOption.map (fun b => b.applications.keys) = some ["b"] ∧
      loadDocuments ⟨[], []⟩ (namedBundle "applications" "services")
          [namedOverlay "applications"] =
        loadDocuments ⟨[], []⟩ (namedBundle "services" "applications")
          [namedOverlay "services"] := by
  have hrenamed : ∀ {d d' : Value}, ¬ CarriesBoth d → d' = swapped d → Renamed d d' :=
    fun hd h => ⟨hd, .inr h⟩
  have hbundle : (namedBundle "services" "applications").Renamed
      (namedBundle "applications" "services") :=
    ⟨rfl, rfl, .cons (hrenamed (by decide +kernel) (by decide +kernel))
      (.cons (hrenamed (by decide +kernel) (by decide +kernel)) .nil)⟩
  have hoverlays : List.Forall₂ DocumentFile.Renamed [namedOverlay "services"]
      [namedOverlay "applications"] :=
    .cons ⟨rfl, rfl, .cons (hrenamed (by decide +kernel) (by decide +kernel)) .nil⟩ .nil
  exact ⟨hbundle, hoverlays, by decide +kernel, loadDocuments_renamed hbundle hoverlays⟩

end BundleCheck
