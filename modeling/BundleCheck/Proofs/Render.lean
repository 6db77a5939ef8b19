import BundleCheck.Command
import BundleCheck.Load
import BundleCheck.Proofs.Bundle.RoundTrip
import BundleCheck.Proofs.Include
import BundleCheck.Proofs.Yaml.Equality

/-! # Rendering a loaded bundle

A loaded bundle is readable, so decoding undoes its encoding. Loading its text again also
expands included files, which changes nothing as long as no option names one. -/

namespace BundleCheck

open Yaml

/-! ## Loaded bundles -/

/-- A bundle that was loaded, from a text or from a file with overlay files. -/
inductive Bundle.IsLoaded : Bundle → Prop
  | ofText {tree : FileTree} {text : String} {directory : FilePath} {b : Bundle}
      (h : loadText tree text directory = .ok b) : IsLoaded b
  | ofFile {tree : FileTree} {path : FilePath} {overlays : List FilePath} {b : Bundle}
      (h : loadFile tree path overlays = .ok b) : IsLoaded b

theorem Bundle.isReadable_of_decodeDocument {origin : String} {document : Value} {b : Bundle}
    (h : decodeDocument origin document = .ok b) : b.IsReadable :=
  Bundle.isReadable_of_decode (mapError_eq_ok_iff.mp h)

theorem Bundle.IsLoaded.isReadable {b : Bundle} (hb : b.IsLoaded) : b.IsReadable := by
  cases hb with
  | ofText h =>
      obtain ⟨documents, -, h⟩ := bind_eq_ok_iff.mp h
      obtain ⟨document, -, h⟩ := bind_eq_ok_iff.mp h
      exact Bundle.isReadable_of_decodeDocument h
  | ofFile h =>
      obtain ⟨text, -, h⟩ := bind_eq_ok_iff.mp h
      obtain ⟨documents, -, h⟩ := bind_eq_ok_iff.mp h
      obtain ⟨document, -, h⟩ := bind_eq_ok_iff.mp h
      obtain ⟨merged, -, h⟩ := bind_eq_ok_iff.mp h
      exact Bundle.isReadable_of_decodeDocument h

/-! ## Options that name no file -/

/-- No option of an application begins like a directive. -/
def Application.NamesNoFile (a : Application) : Prop :=
  ∀ o ∈ a.options.values, ∀ s, o = .string s → ∀ form : Include.Form, ¬ form.opening <+: s.toList

def Bundle.NamesNoFile (b : Bundle) : Prop :=
  ∀ a ∈ b.applications.values, a.NamesNoFile

/-- The options are found in an encoded application under their name only. -/
theorem Application.eq_of_mem_encode {a : Application} {m : Mapping} {v : Value}
    (hm : a.encode = .mapping m) (h : (.string "options", v) ∈ m) :
    v = .mapping (encodeOptions a.options) := by
  rw [Application.encode_eq, Value.mapping.injEq] at hm
  rw [← hm] at h
  obtain ⟨field, -, hfield⟩ := List.mem_filterMap.mp h
  obtain ⟨w, hw, hentry⟩ := Option.map_eq_some_iff.mp hfield
  rw [Prod.mk.injEq, Value.string.injEq] at hentry
  obtain ⟨hname, rfl⟩ := hentry
  cases field with
  | options => exact eq_of_nonEmpty?_map hw
  | _ => exact absurd hname (by decide)

theorem Application.expand_encode {a : Application} (ha : a.NamesNoFile) (tree : FileTree)
    (directory : FilePath) : Include.expandApplication tree directory a.encode = .ok a.encode := by
  refine Include.inMapping_eq_self (Include.inEntry_eq_self fun v hv => ?_)
  rw [Application.eq_of_mem_encode rfl hv]
  refine Include.inMapping_eq_self (Include.mapEntries_eq_self fun e he => ?_)
  obtain ⟨o, ho, rfl⟩ := List.mem_map.mp he
  refine Include.expandValue_eq_self (fun s hs => ?_) fun tag w => ?_
  · have hstring : o.2 = .string s := by
      cases hvalue : o.2 with
      | string t => simpa [entry, OptionValue.encode, hvalue] using hs
      | _ => simp [entry, OptionValue.encode, hvalue] at hs
    exact Include.directive?_eq_none_iff.mpr
      (ha o.2 (List.mem_map_of_mem ho) s hstring)
  · cases o.2 <;> simp [entry, OptionValue.encode]

/-- A section of applications is found in an encoded bundle under its own name only. -/
theorem Bundle.eq_of_mem_encode {b : Bundle} (hb : b.HasReadableParts) {m : Mapping}
    {name : String} {v : Value} (hname : BundleField.ofName? name = some .applications)
    (hm : b.encode = .mapping m) (h : (.string name, v) ∈ m) :
    v = .mapping (b.applications.entries.map fun e => entry e.1 e.2.encode) := by
  rw [Bundle.encode_eq, Value.mapping.injEq] at hm
  rw [← hm] at h
  rcases List.mem_append.mp h with h | h
  · obtain ⟨field, -, hfield⟩ := List.mem_filterMap.mp h
    obtain ⟨w, hw, hentry⟩ := Option.map_eq_some_iff.mp hfield
    rw [Prod.mk.injEq, Value.string.injEq] at hentry
    obtain ⟨rfl, rfl⟩ := hentry
    rw [BundleField.ofName?_label, Option.some.injEq] at hname
    subst hname
    exact (Option.some.inj hw).symm
  · obtain ⟨e, he, hentry⟩ := List.mem_map.mp h
    rw [entry, Prod.mk.injEq, Value.string.injEq] at hentry
    have hkept := (hb.extra e he).1
    rw [hentry.1, hname] at hkept
    cases hkept

theorem Bundle.expand_encode {b : Bundle} (hb : b.HasReadableParts) (hplain : b.NamesNoFile)
    (tree : FileTree) (directory : FilePath) :
    Include.expand tree directory b.encode = .ok b.encode := by
  refine Include.inMapping_eq_self (Include.inEntry_eq_self fun v hv => ?_)
  have hname : ∀ root, BundleField.ofName? (Include.sectionName root) = some .applications := by
    intro root
    unfold Include.sectionName
    split <;> rfl
  rw [Bundle.eq_of_mem_encode hb (hname _) rfl hv]
  refine Include.inMapping_eq_self (Include.mapEntries_eq_self fun e he => ?_)
  obtain ⟨a, ha, rfl⟩ := List.mem_map.mp he
  exact Application.expand_encode (hplain a.2 (List.mem_map_of_mem ha)) tree directory

/-! ## Loading what was rendered -/

/-- A loaded bundle is rendered as a text that loads as the same bundle, wherever it is loaded,
unless an option names a file; of the text it is used that it reads as what was written. -/
theorem Bundle.IsLoaded.loadText_renderBundle {b : Bundle} (hb : b.IsLoaded)
    (hplain : b.NamesNoFile) (hwritten : readValues b.encode.write = .ok [b.encode])
    (tree : FileTree) (directory : FilePath) :
    ∃ text, Command.renderBundle .yaml b = .ok text ∧ loadText tree text directory = .ok b := by
  have hreadable := hb.isReadable
  have hparse : parseDocuments "<input>" b.encode.write = .ok [b.encode] := by
    rw [parseDocuments, hwritten]
    rfl
  have hresolve : resolveDocuments tree "<input>" directory [b.encode] = .ok b.encode := by
    change (Include.expand tree directory b.encode >>= fun base =>
      applyOverlays tree "<input>" directory base []) = _
    rw [Bundle.expand_encode hreadable.toHasReadableParts hplain]
    rfl
  have hdecode : decodeDocument "<input>" b.encode = .ok b := by
    rw [decodeDocument, Bundle.decode_encode_of_isReadable hreadable]
    rfl
  refine ⟨b.encode.write, rfl, ?_⟩
  rw [loadText, hparse]
  change (resolveDocuments tree "<input>" directory [b.encode] >>= _) = _
  rw [hresolve]
  exact hdecode

deriving instance DecidableEq for Bundle

/-- A bundle with parts that have several written forms. -/
def siteBundle : Bundle where
  machines := ⟨[(.ofText "2", {})], by decide⟩
  applications := ⟨[("web", {
    charm := "nginx"
    options := ⟨[("ratio", .float .nan), ("title", .string "an include-file://")], by decide⟩
    placements := ["2"] })], by decide⟩
  extra := [("saas", .null)]

/-- A text of the bundle, with the older name of the applications, an identifier that is a number,
a single directive and an option that is null. -/
def siteText : String :=
  "\n".intercalate
    ["machines:", "  2:", "services:", "  web:", "    charm: nginx", "    to: 2", "    options:",
      "      ratio: .nan", "      size:", "      title: an include-file://", "saas:"]

/-- The bundle of the text comes back from its rendering. -/
theorem siteBundle_loadText_renderBundle :
    siteBundle.IsLoaded ∧ siteBundle.NamesNoFile ∧
      readValues siteBundle.encode.write = .ok [siteBundle.encode] ∧
      ∃ text, Command.renderBundle .yaml siteBundle = .ok text ∧
        loadText ⟨[], []⟩ text "" = .ok siteBundle := by
  have hloaded : siteBundle.IsLoaded := by
    have hload : loadText ⟨[], []⟩ siteText "" = .ok siteBundle := by decide +kernel
    exact .ofText hload
  have hplain : siteBundle.NamesNoFile := by
    rintro a ha o ho s rfl form
    obtain rfl := List.mem_singleton.mp ha
    have htitle : s = "an include-file://" := by
      simpa [SortedMap.values] using ho
    subst htitle
    cases form <;> decide
  have hwritten : readValues siteBundle.encode.write = .ok [siteBundle.encode] := by
    decide +kernel
  exact ⟨hloaded, hplain, hwritten, hloaded.loadText_renderBundle hplain hwritten ⟨[], []⟩ ""⟩

end BundleCheck
