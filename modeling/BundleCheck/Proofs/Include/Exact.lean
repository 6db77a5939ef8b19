import BundleCheck.Proofs.Include.Options
import BundleCheck.Proofs.Load
import BundleCheck.Proofs.Text.Base64
import BundleCheck.Proofs.Text.Utf8

/-! # Expansion goes through the options in order

Expansion succeeds exactly if each file that an option names can be read, and fails on the first one
that cannot. All that it changes are options that name a file. -/

namespace BundleCheck.Include

open Yaml
open Overlay (rootOf)

variable {tree : FileTree} {directory : FilePath}

/-! ## What is visited -/

/-- The entries of the mapping under a name. -/
def entriesUnder (name : String) (m : Mapping) : Mapping :=
  match m.getName? name with
  | some v => rootOf v
  | none => []

/-- The option values of the applications in the section of a document, in order. -/
def optionValues (d : Value) : List Value :=
  (entriesUnder (sectionName (rootOf d)) (rootOf d)).flatMap fun a =>
    (entriesUnder "options" (rootOf a.2)).map (·.2)

section

variable {f g : Value → Except Failure Value}

theorem inMapping_congr {g g' : Mapping → Except Failure Mapping} {v : Value}
    (h : g (rootOf v) = g' (rootOf v)) : inMapping g v = inMapping g' v := by
  unfold inMapping
  cases hv : v.entries? with
  | none => rfl
  | some m =>
      rw [rootOf, hv, Option.getD_some] at h
      exact congrArg (Except.map v.withEntries) h

/-- Changes of the entries under a name depend on what becomes of these. -/
theorem inEntry_congr {name : String} {m : Mapping}
    (h : ∀ e ∈ entriesUnder name m, f e.2 = g e.2) :
    inEntry name (inMapping (mapEntries f)) m = inEntry name (inMapping (mapEntries g)) m := by
  unfold entriesUnder at h
  unfold inEntry
  cases hv : m.getName? name with
  | none => rfl
  | some v =>
      rw [hv] at h
      refine congrArg (Except.map _) (inMapping_congr (mapM_congr fun e he => ?_))
      rw [h e he]

theorem verdict_mapEntries (m : Mapping) :
    verdict (mapEntries f m) = m.forM fun e => verdict (f e.2) := by
  simp only [mapEntries, verdict_mapM, verdict_map]

theorem verdict_inMapping {g : Mapping → Except Failure Mapping} (hg : verdict (g []) = .ok ())
    (v : Value) : verdict (inMapping g v) = verdict (g (rootOf v)) := by
  unfold inMapping rootOf
  cases v.entries? with
  | none => exact hg.symm
  | some m => exact verdict_map _ _

/-- Entries under a name are visited in order. -/
theorem verdict_inEntry (name : String) (m : Mapping) :
    verdict (inEntry name (inMapping (mapEntries f)) m) =
      (entriesUnder name m).forM fun e => verdict (f e.2) := by
  unfold inEntry entriesUnder
  cases m.getName? name with
  | none => rfl
  | some v => rw [← verdict_mapEntries, ← verdict_inMapping rfl v, verdict_map]

end

theorem verdict_expandApplication (v : Value) :
    verdict (expandApplication tree directory v) =
      (entriesUnder "options" (rootOf v)).forM fun o =>
        verdict (expandValue tree directory o.2) := by
  rw [expandApplication, verdict_inMapping rfl, verdict_inEntry]

theorem verdict_expand (d : Value) :
    verdict (expand tree directory d) =
      (optionValues d).forM fun v => verdict (expandValue tree directory v) := by
  have hmap : ∀ m : Mapping, (m.map (·.2)).forM (fun v => verdict (expandValue tree directory v)) =
      m.forM fun o => verdict (expandValue tree directory o.2) := fun m => by
    simp only [List.forM_eq_forM, List.forM_map]
  rw [expand_eq, verdict_inMapping rfl, verdict_inEntry, optionValues, forM_flatMap]
  simp only [verdict_expandApplication, hmap]

/-- Expansion depends on what becomes of the options that are visited. -/
theorem expand_congr {tree' : FileTree} {directory' : FilePath} {d : Value}
    (h : ∀ v ∈ optionValues d,
      expandValue tree directory v = expandValue tree' directory' v) :
    expand tree directory d = expand tree' directory' d := by
  rw [expand_eq, expand_eq]
  refine inMapping_congr (inEntry_congr fun a ha => ?_)
  refine inMapping_congr (inEntry_congr fun o ho => h o.2 ?_)
  exact List.mem_flatMap.mpr ⟨a, ha, List.mem_map_of_mem ho⟩

/-! ## What can be read -/

def IsReadable (tree : FileTree) (directory : FilePath) (v : Value) : Prop :=
  ∀ form target, IsDirective v form target →
    ∃ bytes, tree.readBytes (FilePath.join directory target) = .ok bytes

def FailsWith (tree : FileTree) (directory : FilePath) (v : Value) (failure : Failure) : Prop :=
  ∃ form target cause, IsDirective v form target ∧
    tree.readBytes (FilePath.join directory target) = .error cause ∧
    failure = .fileReadFailed (FilePath.join directory target).display cause

theorem expandValue_eq_error_iff {v : Value} {failure : Failure} :
    expandValue tree directory v = .error failure ↔ FailsWith tree directory v failure := by
  unfold FailsWith
  obtain ⟨form, target, h⟩ | hnone := isDirective_or_not v
  · rw [expandValue_of_isDirective h, map_eq_error_iff, mapError_eq_error_iff]
    constructor
    · rintro ⟨cause, hread, rfl⟩
      exact ⟨form, target, cause, h, hread, rfl⟩
    · rintro ⟨form', target', cause, h', hread, rfl⟩
      obtain ⟨rfl, rfl⟩ := h.unique h'
      exact ⟨cause, hread, rfl⟩
  · rw [expandValue_of_not_isDirective hnone]
    refine iff_of_false nofun ?_
    rintro ⟨form, target, -, h, -⟩
    exact hnone form target h

theorem verdict_expandValue_eq_ok_iff {v : Value} :
    verdict (expandValue tree directory v) = .ok () ↔ IsReadable tree directory v := by
  obtain ⟨form, target, h⟩ | hnone := isDirective_or_not v
  · rw [expandValue_of_isDirective h, verdict_map, verdict_eq_ok_iff]
    simp only [mapError_eq_ok_iff]
    constructor
    · intro hread form' target' h'
      obtain ⟨rfl, rfl⟩ := h.unique h'
      exact hread
    · exact fun hreadable => hreadable form target h
  · rw [expandValue_of_not_isDirective hnone]
    exact iff_of_true rfl fun form target h => absurd h (hnone form target)

instance (tree : FileTree) (directory : FilePath) (v : Value) :
    Decidable (IsReadable tree directory v) :=
  decidable_of_iff _ verdict_expandValue_eq_ok_iff

/-- A file that holds a text is included as this text. -/
theorem render_text_of_readText {path : FilePath} {text : String}
    (h : tree.readText path = .ok text) :
    (tree.readBytes path).map Form.text.render = .ok text := by
  obtain ⟨bytes, hbytes, h⟩ := bind_eq_ok_iff.mp h
  cases htext : Text.ofUtf8? bytes with
  | none => simp [htext] at h
  | some text' =>
      obtain rfl : text' = text := by simpa [htext] using h
      rw [hbytes, Except.map, Form.render, Text.ofUtf8Lossy_of_ofUtf8? htext]

/-! ## What is changed -/

/-- Mappings with the same keys in the same order, with related values. Other values are the
same. -/
inductive Entrywise (R : Value → Value → Value → Prop) : Value → Value → Prop
  | mapping {es fs : Mapping} (h : List.Forall₂ (fun e f => f.1 = e.1 ∧ R e.1 e.2 f.2) es fs) :
      Entrywise R (.mapping es) (.mapping fs)
  | other {v : Value} (h : ∀ es, v ≠ .mapping es) : Entrywise R v v

/-- Of the values under all keys, only the one under a name may differ. -/
def OnlyUnder (name : String) (R : Value → Value → Prop) (k v w : Value) : Prop :=
  (k = .string name → R v w) ∧ (k ≠ .string name → w = v)

/-- The applications are the same but for options that name a file. -/
def ExpandedApplication (tree : FileTree) (directory : FilePath) : Value → Value → Prop :=
  Entrywise (OnlyUnder "options" (Entrywise fun _ => Becomes tree directory))

/-- The documents are the same but for options of applications that name a file. -/
def Expanded (tree : FileTree) (directory : FilePath) (d d' : Value) : Prop :=
  Entrywise (OnlyUnder (sectionName (rootOf d))
    (Entrywise fun _ => ExpandedApplication tree directory)) d d'

section

variable {f : Value → Except Failure Value} {R : Value → Value → Prop} {v w : Value}

theorem entrywise_inMapping {g : Mapping → Except Failure Mapping}
    {S : Value → Value → Value → Prop} (hv : v.isUntagged = true)
    (hg : ∀ es fs, v = .mapping es → g es = .ok fs →
      List.Forall₂ (fun e f => f.1 = e.1 ∧ S e.1 e.2 f.2) es fs)
    (h : inMapping g v = .ok w) : Entrywise S v w := by
  unfold inMapping at h
  split at h
  next es hes =>
    obtain rfl := Value.eq_mapping_of_entries? hv hes
    obtain ⟨fs, hfs, rfl⟩ := map_eq_ok_iff.mp h
    exact .mapping (hg es fs rfl hfs)
  next hnone =>
    cases h
    refine .other fun es hes => ?_
    rw [hes] at hnone
    cases hnone

/-- Values in a mapping without repeated keys and without tags have neither themselves. -/
theorem plain_values {es : Mapping} (hkeys : (Value.mapping es).DistinctKeys)
    (htags : (Value.mapping es).isUntagged = true) :
    ∀ e ∈ es, e.2.DistinctKeys ∧ e.2.isUntagged = true := fun e he =>
  ⟨((Value.distinctKeys_mapping_iff.mp hkeys).parts e he).2,
    (Value.isUntagged_mapping_iff.mp htags e he).2⟩

theorem entrywise_mapEntries
    (hf : ∀ x y, x.DistinctKeys → x.isUntagged = true → f x = .ok y → R x y)
    (hkeys : v.DistinctKeys) (htags : v.isUntagged = true)
    (h : inMapping (mapEntries f) v = .ok w) : Entrywise (fun _ => R) v w := by
  refine entrywise_inMapping htags (fun es fs hes hfs => ?_) h
  subst hes
  have hboth := (List.forall₂_and_left _ _).mpr ⟨plain_values hkeys htags, forall₂_of_mapM hfs⟩
  refine hboth.imp fun e e' he => ?_
  obtain ⟨y, hy, rfl⟩ := map_eq_ok_iff.mp he.2
  exact ⟨rfl, hf _ _ he.1.1 he.1.2 hy⟩

theorem entrywise_inEntry {name : String}
    (hf : ∀ x y, x.DistinctKeys → x.isUntagged = true → f x = .ok y → R x y)
    (hkeys : v.DistinctKeys) (htags : v.isUntagged = true)
    (h : inMapping (inEntry name f) v = .ok w) : Entrywise (OnlyUnder name R) v w := by
  refine entrywise_inMapping htags (fun es fs hes hfs => ?_) h
  subst hes
  have hchanges := forall₂_inEntry (Value.distinctKeys_mapping_iff.mp hkeys) hfs
  have hboth := (List.forall₂_and_left _ _).mpr ⟨plain_values hkeys htags, hchanges⟩
  refine hboth.imp fun e e' he => ?_
  obtain ⟨⟨hekeys, hetags⟩, hkey, hchanged, hkept⟩ := he
  exact ⟨hkey, fun hname => hf _ _ hekeys hetags (hchanged hname), hkept⟩

end

theorem expanded_of_expand {d d' : Value} (hkeys : d.DistinctKeys) (htags : d.isUntagged = true)
    (h : expand tree directory d = .ok d') : Expanded tree directory d d' := by
  have happlication : ∀ a a', a.DistinctKeys → a.isUntagged = true →
      expandApplication tree directory a = .ok a' → ExpandedApplication tree directory a a' :=
    fun a a' => entrywise_inEntry fun o o' => entrywise_mapEntries fun v w _ _ =>
      expandValue_eq_ok_iff.mp
  rw [expand_eq] at h
  exact entrywise_inEntry (fun s s' => entrywise_mapEntries happlication) hkeys htags h

/-! ## Expansion of a document -/

/-- A document is expanded exactly if each file that its options name can be read. Then options that
name a file become its content, and all else stays as it is. The content is the text of the file, if
it holds one, or its bytes in base 64. Otherwise the first file that cannot be read is named. -/
theorem expand_exact {d : Value} (hkeys : d.DistinctKeys) (htags : d.isUntagged = true) :
    ((∃ d', expand tree directory d = .ok d') ↔
      ∀ v ∈ optionValues d, IsReadable tree directory v) ∧
    (∀ d', expand tree directory d = .ok d' → Expanded tree directory d d') ∧
    (∀ path text, tree.readText path = .ok text →
      (tree.readBytes path).map Form.text.render = .ok text) ∧
    (∀ bytes, ∃ digits padding,
      Text.IsBase64 bytes (Form.base64.render bytes).toList digits padding) ∧
    ∀ failure, expand tree directory d = .error failure ↔
      ∃ front v back, optionValues d = front ++ v :: back ∧
        (∀ w ∈ front, IsReadable tree directory w) ∧ FailsWith tree directory v failure := by
  refine ⟨?_, fun d' => expanded_of_expand hkeys htags, fun path text => render_text_of_readText,
    fun bytes => ?_, fun failure => ?_⟩
  · rw [← verdict_eq_ok_iff, verdict_expand, forM_eq_ok_iff]
    simp only [verdict_expandValue_eq_ok_iff]
  · rw [Form.render, String.toList_ofList]
    exact Text.isBase64_base64 bytes
  · rw [← verdict_eq_error_iff, verdict_expand, forM_eq_error_iff]
    simp only [verdict_expandValue_eq_ok_iff, verdict_eq_error_iff, expandValue_eq_error_iff]

/-- A certificate, and a key that is no text. -/
def secretsTree : FileTree where
  top := [("ca.pem", textFile "text"), ("key.bin", .file [0, 255])]
  workingDirectory := []

/-- Options of which two name a file, beside a section that is not looked into. -/
def includingDocument (target : String) : Value :=
  .mapping
    [(.string "services", .mapping
      [(.string "old", .mapping
        [(.string "options", .mapping [(.string "cert", .string "include-file://gone.pem")])])]),
      (.string "applications", .mapping
        [(.string "a", .null),
          (.string "b", .mapping
            [(.string "charm", .string "include-file://gone.pem"),
              (.string "options", .mapping
                [(.string "port", .number (.int 8200)),
                  (.string "key", .string "include-base64://key.bin"),
                  (.string "cert", .string ("include-file://" ++ target))])]),
          (.string "c", .mapping
            [(.string "options", .mapping
              [(.string "cert", .string ("include-file://" ++ target))])])])]

theorem expand_exact_certificates :
    (∃ d', expand secretsTree "." (includingDocument "ca.pem") = .ok d' ∧
      Expanded secretsTree "." (includingDocument "ca.pem") d') ∧
    expand secretsTree "." (includingDocument "lost.pem") =
      .error (.fileReadFailed "./lost.pem" .notFound) := by
  constructor
  · obtain ⟨hsuccess, hexpanded, -⟩ :=
      @expand_exact secretsTree "." (includingDocument "ca.pem") (by decide +kernel)
        (by decide +kernel)
    obtain ⟨d', hd'⟩ := hsuccess.mpr (by decide +kernel)
    exact ⟨d', hd', hexpanded d' hd'⟩
  · obtain ⟨-, -, -, -, hfailure⟩ :=
      @expand_exact secretsTree "." (includingDocument "lost.pem") (by decide +kernel)
        (by decide +kernel)
    have hdisplay : (FilePath.join "." "lost.pem").display = "./lost.pem" := by decide +kernel
    exact (hfailure _).mpr ⟨[.number (.int 8200), .string "include-base64://key.bin"],
      .string "include-file://lost.pem", [.string "include-file://lost.pem"], by decide +kernel,
      by decide +kernel, .text, "lost.pem", .notFound, ⟨_, rfl, by decide +kernel⟩, rfl,
      by rw [hdisplay]⟩

end BundleCheck.Include
