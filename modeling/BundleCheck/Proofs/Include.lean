import BundleCheck.Include
import BundleCheck.Proofs.Except
import BundleCheck.Proofs.Yaml.Mapping

/-! # Documents and included files

Expansion leaves a document as it is when none of its option values is a directive. It never
changes a key. -/

namespace BundleCheck

open Yaml

theorem Text.afterOpening?_eq_some_iff {opening cs rest : List Char} :
    Text.afterOpening? opening cs = some rest ↔ cs = opening ++ rest := by
  unfold Text.afterOpening?
  constructor
  · intro h
    split at h
    next hprefix =>
      cases h
      exact (List.prefix_iff_eq_append.mp (List.isPrefixOf_iff_prefix.mp hprefix)).symm
    · cases h
  · rintro rfl
    simp

namespace Include

/-! ## Directives -/

/-- A directive is a text that begins with one of the two openings. -/
theorem directive?_eq_none_iff {s : String} :
    directive? s = none ↔ ∀ form : Form, ¬ form.opening <+: s.toList := by
  have hforall : (∀ form : Form, ¬ form.opening <+: s.toList) ↔
      ¬ Form.text.opening <+: s.toList ∧ ¬ Form.base64.opening <+: s.toList :=
    ⟨fun h => ⟨h .text, h .base64⟩, fun h form => by cases form; exacts [h.1, h.2]⟩
  rw [hforall, directive?, Text.afterOpening?, Text.afterOpening?]
  by_cases htext : Form.text.opening <+: s.toList
  · simp [htext]
  · by_cases hbase : Form.base64.opening <+: s.toList
    · simp [htext, hbase]
    · simp [htext, hbase]

theorem not_both_openings {cs : List Char} (h : Form.text.opening <+: cs) :
    ¬ Form.base64.opening <+: cs := by
  intro h'
  have hor := List.prefix_or_prefix_of_prefix h h'
  revert hor
  decide

/-- What a directive names follows its opening. -/
theorem directive?_eq_some_iff {s : String} {form : Form} {target : String} :
    directive? s = some (form, target) ↔ s.toList = form.opening ++ target.toList := by
  have htarget : ∀ {cs : List Char}, cs = target.toList ↔ String.ofList cs = target := by
    intro cs
    rw [← String.toList_inj, String.toList_ofList]
  rw [← Text.afterOpening?_eq_some_iff]
  unfold directive?
  cases htext : Text.afterOpening? Form.text.opening s.toList with
  | some rest =>
      cases form with
      | text => simp [htext, htarget]
      | base64 =>
          have hopening : Form.text.opening <+: s.toList :=
            ⟨rest, (Text.afterOpening?_eq_some_iff.mp htext).symm⟩
          have hnone : Text.afterOpening? Form.base64.opening s.toList = none := by
            simp [Text.afterOpening?, not_both_openings hopening]
          simp [hnone]
  | none =>
      cases form with
      | text => simp [htext]
      | base64 =>
          cases Text.afterOpening? Form.base64.opening s.toList with
          | some rest => simp [htarget]
          | none => simp

/-- The value is a text that begins with the opening of a form and goes on with a target. -/
def IsDirective (v : Value) (form : Form) (target : String) : Prop :=
  ∃ s, v.text? = some s ∧ s.toList = form.opening ++ target.toList

theorem isDirective_iff {v : Value} {form : Form} {target : String} :
    IsDirective v form target ↔ v.text?.bind directive? = some (form, target) := by
  simp only [IsDirective, Option.bind_eq_some_iff, directive?_eq_some_iff]

theorem isDirective_or_not (v : Value) :
    (∃ form target, IsDirective v form target) ∨ ∀ form target, ¬ IsDirective v form target := by
  by_cases h : ∃ form target, IsDirective v form target
  · exact .inl h
  · exact .inr fun form target hdirective => h ⟨form, target, hdirective⟩

/-- A value is one directive at most. -/
theorem IsDirective.unique {v : Value} {form form' : Form} {target target' : String}
    (h : IsDirective v form target) (h' : IsDirective v form' target') :
    form = form' ∧ target = target' := by
  rw [isDirective_iff] at h h'
  exact Prod.mk.inj (Option.some.inj (h.symm.trans h'))

/-- What a value becomes: a directive becomes the content of the file that it names, as seen from
a directory, and another value stays as it is. -/
structure Becomes (tree : FileTree) (directory : FilePath) (v w : Value) : Prop where
  directive : ∀ form target, IsDirective v form target →
    ∃ bytes, tree.readBytes (FilePath.join directory target) = .ok bytes ∧
      w = .string (form.render bytes)
  other : (∀ form target, ¬ IsDirective v form target) → w = v

section

variable {tree : FileTree} {directory : FilePath} {v w : Value}

/-- A directive reads the file that it names. -/
theorem expandValue_of_isDirective {form : Form} {target : String}
    (h : IsDirective v form target) : expandValue tree directory v =
      ((tree.readBytes (FilePath.join directory target)).mapError
        (.fileReadFailed (FilePath.join directory target).display)).map fun bytes =>
          .string (form.render bytes) := by
  rw [expandValue, isDirective_iff.mp h]
  dsimp only
  cases tree.readBytes (FilePath.join directory target) with
  | error cause => rfl
  | ok bytes => rfl

theorem expandValue_of_not_isDirective (h : ∀ form target, ¬ IsDirective v form target) :
    expandValue tree directory v = .ok v := by
  have hnone : v.text?.bind directive? = none := by
    rw [Option.eq_none_iff_forall_ne_some]
    rintro ⟨form, target⟩ hdirective
    exact h form target (isDirective_iff.mpr hdirective)
  rw [expandValue, hnone]

theorem expandValue_eq_ok_iff : expandValue tree directory v = .ok w ↔
    Becomes tree directory v w := by
  obtain ⟨form, target, h⟩ | hnone := isDirective_or_not v
  · simp only [expandValue_of_isDirective h, map_eq_ok_iff, mapError_eq_ok_iff]
    constructor
    · rintro ⟨bytes, hread, rfl⟩
      refine ⟨fun form' target' h' => ?_, fun hnone => absurd h (hnone form target)⟩
      obtain ⟨rfl, rfl⟩ := h.unique h'
      exact ⟨bytes, hread, rfl⟩
    · intro hbecomes
      obtain ⟨bytes, hread, hw⟩ := hbecomes.directive form target h
      exact ⟨bytes, hread, hw.symm⟩
  · rw [expandValue_of_not_isDirective hnone, Except.ok.injEq]
    constructor
    · rintro rfl
      exact ⟨fun form target h => absurd h (hnone form target), fun _ => rfl⟩
    · exact fun hbecomes => (hbecomes.other hnone).symm

/-- What a value becomes depends on the file that it names, and not on where the file is. -/
theorem toOption_expandValue_congr {tree' : FileTree} {directory' : FilePath}
    (h : ∀ form target, IsDirective v form target →
      (tree.readBytes (FilePath.join directory target)).toOption =
        (tree'.readBytes (FilePath.join directory' target)).toOption) :
    (expandValue tree directory v).toOption = (expandValue tree' directory' v).toOption := by
  obtain ⟨form, target, hv⟩ | hnone := isDirective_or_not v
  · simp only [expandValue_of_isDirective hv, toOption_map, toOption_mapError, h form target hv]
  · rw [expandValue_of_not_isDirective hnone, expandValue_of_not_isDirective hnone]

theorem expandValue_eq_self (h : ∀ s, v = .string s → directive? s = none)
    (hv : ∀ tag w, v ≠ .tagged tag w) : expandValue tree directory v = .ok v := by
  have hdirective : v.text?.bind directive? = none := by
    cases v with
    | string s => exact h s rfl
    | tagged tag w => exact absurd rfl (hv tag w)
    | _ => rfl
  refine expandValue_of_not_isDirective fun form target hform => ?_
  rw [isDirective_iff, hdirective] at hform
  cases hform

end

/-! ## Changes that change nothing -/

theorem mapEntries_eq_self {f : Value → Except Failure Value} {m : Mapping}
    (h : ∀ e ∈ m, f e.2 = .ok e.2) : mapEntries f m = .ok m := by
  induction m with
  | nil => rfl
  | cons e es ih =>
      have htail : mapEntries f es = .ok es := ih fun e he => h e (by simp [he])
      rw [mapEntries] at htail
      rw [mapEntries, List.mapM_cons, h e (by simp), htail]
      rfl

theorem inMapping_eq_self {f : Mapping → Except Failure Mapping} {m : Mapping}
    (h : f m = .ok m) : inMapping f (.mapping m) = .ok (.mapping m) := by
  change (f m).map (Value.mapping m).withEntries = _
  rw [h]
  rfl

theorem inEntry_eq_self {name : String} {f : Value → Except Failure Value} {m : Mapping}
    (h : ∀ v, (.string name, v) ∈ m → f v = .ok v) : inEntry name f m = .ok m := by
  unfold inEntry
  split
  next v hv =>
    rw [h v (Mapping.mem_of_getName?_eq_some hv)]
    exact congrArg Except.ok (Mapping.insert_of_get?_eq_some hv)
  · rfl

/-! ## Keys that stay distinct -/

theorem distinctKeys_expandValue {tree : FileTree} {directory : FilePath} {v w : Value}
    (hv : v.DistinctKeys) (h : expandValue tree directory v = .ok w) : w.DistinctKeys := by
  have hbecomes := expandValue_eq_ok_iff.mp h
  obtain ⟨form, target, hform⟩ | hnone := isDirective_or_not v
  · obtain ⟨bytes, -, rfl⟩ := hbecomes.directive form target hform
    exact Value.distinctKeys_string _
  · rwa [hbecomes.other hnone]

theorem distinctKeys_mapEntries {f : Value → Except Failure Value}
    (hf : ∀ {v w}, v.DistinctKeys → f v = .ok w → w.DistinctKeys) {m m' : Mapping}
    (hm : m.DistinctKeys) (h : mapEntries f m = .ok m') : m'.DistinctKeys := by
  induction m generalizing m' with
  | nil =>
      cases h
      exact hm
  | cons e es ih =>
      obtain ⟨he, hhead, hes⟩ := Mapping.distinctKeys_cons_iff.mp hm
      rw [mapEntries, List.mapM_cons, bind_eq_ok_iff] at h
      obtain ⟨e', he', h⟩ := h
      obtain ⟨es', hes', h⟩ := bind_eq_ok_iff.mp h
      cases h
      obtain ⟨v, hv, rfl⟩ := map_eq_ok_iff.mp he'
      have hkeys : ∀ b ∈ es', ∃ a ∈ es, a.1 = b.1 := by
        refine forall_mem_of_mapM (fun a ha b hb => ?_) hes'
        obtain ⟨w, -, rfl⟩ := map_eq_ok_iff.mp hb
        exact ⟨a, ha, rfl⟩
      refine Mapping.distinctKeys_cons_iff.mpr ⟨⟨he.1, hf he.2 hv⟩, fun b hb => ?_, ih hes hes'⟩
      obtain ⟨a, ha, hkey⟩ := hkeys b hb
      rw [← hkey]
      exact hhead a ha

theorem distinctKeys_inMapping {f : Mapping → Except Failure Mapping}
    (hf : ∀ {m m'}, m.DistinctKeys → f m = .ok m' → m'.DistinctKeys) {v w : Value}
    (hv : v.DistinctKeys) (h : inMapping f v = .ok w) : w.DistinctKeys := by
  unfold inMapping at h
  split at h
  next m hm =>
    obtain ⟨m', hm', rfl⟩ := map_eq_ok_iff.mp h
    exact distinctKeys_withEntries (hf (distinctKeys_of_entries? hv hm) hm')
  · cases h
    exact hv

theorem distinctKeys_inEntry {name : String} {f : Value → Except Failure Value}
    (hf : ∀ {v w}, v.DistinctKeys → f v = .ok w → w.DistinctKeys) {m m' : Mapping}
    (hm : m.DistinctKeys) (h : inEntry name f m = .ok m') : m'.DistinctKeys := by
  unfold inEntry at h
  split at h
  next v hv =>
    obtain ⟨w, hw, rfl⟩ := map_eq_ok_iff.mp h
    exact hm.insert (Value.distinctKeys_string name) (hf (hm.of_get? hv) hw)
  · cases h
    exact hm

/-- Expansion keeps the keys of a document distinct. -/
theorem distinctKeys_expand {tree : FileTree} {directory : FilePath} {d e : Value}
    (hd : d.DistinctKeys) (h : expand tree directory d = .ok e) : e.DistinctKeys := by
  have happlication : ∀ {v w}, v.DistinctKeys → expandApplication tree directory v = .ok w →
      w.DistinctKeys := fun hv =>
    distinctKeys_inMapping (distinctKeys_inEntry (distinctKeys_inMapping
      (distinctKeys_mapEntries distinctKeys_expandValue))) hv
  exact distinctKeys_inMapping (fun hm => distinctKeys_inEntry
    (fun hv => distinctKeys_inMapping (distinctKeys_mapEntries happlication) hv) hm) hd h

end Include

end BundleCheck
