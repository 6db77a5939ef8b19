import BundleCheck.Proofs.Include
import BundleCheck.Proofs.Overlay.Contents
import BundleCheck.Proofs.Yaml.Equality

/-! # The options of a document

Where the options of a document stand, and what expansion makes of them. It looks into one section
and into one field of each application there; the options that it reaches are expanded and all
others stay as they are. -/

namespace BundleCheck.Include

open Yaml
open Overlay (rootOf sectionKind?)

/-! ## Places -/

/-- An option of an application in a document, with the keys that lead to it. -/
structure OptionPlace where
  sectionKey : Value
  application : Value
  field : Value
  key : Value
  value : Value

/-- The options in a field of an application. A field is known by the text of its key, below tags
too. -/
def optionsOfField (sectionKey application : Value) (f : Value × Value) : List OptionPlace :=
  if f.1.text? = some "options" then
    (rootOf f.2).map fun o => ⟨sectionKey, application, f.1, o.1, o.2⟩
  else []

def optionsOfApplication (sectionKey : Value) (a : Value × Value) : List OptionPlace :=
  (rootOf a.2).flatMap (optionsOfField sectionKey a.1)

/-- The options in a section. Applications stand under either of two names. -/
def optionsOfSection (e : Value × Value) : List OptionPlace :=
  if sectionKind? e.1 = some .applications then
    (rootOf e.2).flatMap (optionsOfApplication e.1)
  else []

def optionsOf (d : Value) : List OptionPlace :=
  (rootOf d).flatMap optionsOfSection

/-- Expansion reaches the option: it stands in the one section and the one field that are looked
into. -/
def OptionPlace.IsReached (root : Mapping) (o : OptionPlace) : Prop :=
  o.sectionKey = .string (sectionName root) ∧ o.field = .string "options"

instance (root : Mapping) (o : OptionPlace) : Decidable (o.IsReached root) :=
  inferInstanceAs (Decidable (_ ∧ _))

theorem mem_optionsOf {d : Value} {e a f o : Value × Value} (he : e ∈ rootOf d)
    (hkind : sectionKind? e.1 = some .applications) (ha : a ∈ rootOf e.2) (hf : f ∈ rootOf a.2)
    (htext : f.1.text? = some "options") (ho : o ∈ rootOf f.2) :
    ⟨e.1, a.1, f.1, o.1, o.2⟩ ∈ optionsOf d := by
  refine List.mem_flatMap.mpr ⟨e, he, ?_⟩
  rw [optionsOfSection, if_pos hkind]
  refine List.mem_flatMap.mpr ⟨a, ha, List.mem_flatMap.mpr ⟨f, hf, ?_⟩⟩
  rw [optionsOfField, if_pos htext]
  exact List.mem_map.mpr ⟨o, ho, rfl⟩

theorem sectionKey_of_mem {e : Value × Value} {o : OptionPlace} (ho : o ∈ optionsOfSection e) :
    o.sectionKey = e.1 := by
  unfold optionsOfSection at ho
  split at ho
  · obtain ⟨a, -, ho⟩ := List.mem_flatMap.mp ho
    obtain ⟨f, -, ho⟩ := List.mem_flatMap.mp ho
    unfold optionsOfField at ho
    split at ho
    · obtain ⟨_, -, rfl⟩ := List.mem_map.mp ho
      rfl
    · cases ho
  · cases ho

theorem field_of_mem {k a : Value} {f : Value × Value} {o : OptionPlace}
    (ho : o ∈ optionsOfField k a f) : o.field = f.1 := by
  unfold optionsOfField at ho
  split at ho
  · obtain ⟨_, -, rfl⟩ := List.mem_map.mp ho
    rfl
  · cases ho

/-! ## What each change does to the entries -/

section

variable {f : Value → Except Failure Value} {v w : Value}

theorem inMapping_eq_ok {g : Mapping → Except Failure Mapping} (h : inMapping g v = .ok w) :
    (rootOf v = [] ∧ w = v) ∨ g (rootOf v) = .ok (rootOf w) := by
  unfold inMapping at h
  split at h
  next m hm =>
    obtain ⟨m', hm', rfl⟩ := map_eq_ok_iff.mp h
    right
    rw [rootOf, hm, rootOf, entries?_withEntries]
    exact hm'
  next hnone =>
    cases h
    exact .inl ⟨by rw [rootOf, hnone]; rfl, rfl⟩

/-- Every entry keeps its key, and its value is changed. -/
theorem forall₂_inMapping_mapEntries (h : inMapping (mapEntries f) v = .ok w) :
    List.Forall₂ (fun e e' => e'.1 = e.1 ∧ f e.2 = .ok e'.2) (rootOf v) (rootOf w) := by
  rcases inMapping_eq_ok h with ⟨hroot, rfl⟩ | h
  · rw [hroot]
    exact .nil
  · refine (forall₂_of_mapM h).imp fun e e' he => ?_
    obtain ⟨x, hx, rfl⟩ := map_eq_ok_iff.mp he
    exact ⟨rfl, hx⟩

/-- What becomes of an entry when the value under a name is changed. -/
def ChangesUnder (name : String) (f : Value → Except Failure Value) (e e' : Value × Value) : Prop :=
  e'.1 = e.1 ∧ (e.1 = .string name → f e.2 = .ok e'.2) ∧ (e.1 ≠ .string name → e'.2 = e.2)

theorem forall₂_changesUnder_self {name : String} {m : Mapping}
    (h : ∀ e ∈ m, e.1 ≠ .string name) : List.Forall₂ (ChangesUnder name f) m m :=
  List.forall₂_same.mpr fun e he => ⟨rfl, fun hkey => absurd hkey (h e he), fun _ => rfl⟩

theorem forall₂_changesUnder_insert {name : String} {m : Mapping} (hm : m.DistinctKeys)
    (hget : m.getName? name = some v) (hw : f v = .ok w) :
    List.Forall₂ (ChangesUnder name f) m (m.insert (.string name) w) := by
  induction m with
  | nil => cases hget
  | cons e es ih =>
      rw [Mapping.getName?, Mapping.get?_cons] at hget
      by_cases hkey : (Value.string name).same e.1 = true
      · rw [if_pos hkey, Option.some.injEq] at hget
        subst hget
        rw [Mapping.insert, if_pos hkey]
        refine .cons ⟨rfl, fun _ => hw, fun hne => ?_⟩
          (forall₂_changesUnder_self fun e' he' hkey' => ?_)
        · exact absurd (Value.same_string_iff.mp hkey) hne
        · have hfresh := hm.same_eq_false (Value.distinctKeys_string name) hkey he'
          rw [hkey', Value.same_refl] at hfresh
          cases hfresh
      · rw [if_neg hkey] at hget
        rw [Mapping.insert, if_neg hkey]
        refine .cons ⟨rfl, fun hname => ?_, fun _ => rfl⟩
          (ih (Mapping.distinctKeys_cons_iff.mp hm).2.2 hget)
        exact absurd (Value.same_string_iff.mpr hname) hkey

theorem forall₂_inEntry {name : String} {m m' : Mapping} (hm : m.DistinctKeys)
    (h : inEntry name f m = .ok m') : List.Forall₂ (ChangesUnder name f) m m' := by
  unfold inEntry at h
  split at h
  next v hget =>
    obtain ⟨w, hw, rfl⟩ := map_eq_ok_iff.mp h
    exact forall₂_changesUnder_insert hm hget hw
  next hnone =>
    cases h
    refine forall₂_changesUnder_self fun e he hkey => ?_
    have hfresh := Mapping.get?_eq_none_iff.mp hnone e he
    rw [hkey, Value.same_refl] at hfresh
    cases hfresh

theorem forall₂_inMapping_inEntry {name : String} (hv : v.DistinctKeys)
    (h : inMapping (inEntry name f) v = .ok w) :
    List.Forall₂ (ChangesUnder name f) (rootOf v) (rootOf w) := by
  rcases inMapping_eq_ok h with ⟨hroot, rfl⟩ | h
  · rw [hroot]
    exact .nil
  · exact forall₂_inEntry (Overlay.distinctKeys_rootOf hv) h

end

/-! ## What expansion does to an option -/

variable {tree : FileTree} {directory : FilePath}

/-- An option that is reached is expanded, and another one stays as it is. -/
def Expands (tree : FileTree) (directory : FilePath) (root : Mapping) (o o' : OptionPlace) : Prop :=
  ∃ v, o' = { o with value := v } ∧
    (o.IsReached root → expandValue tree directory o.value = .ok v) ∧
    (¬ o.IsReached root → v = o.value)

theorem forall₂_expands_self {root : Mapping} {os : List OptionPlace}
    (h : ∀ o ∈ os, ¬ o.IsReached root) : List.Forall₂ (Expands tree directory root) os os :=
  List.forall₂_same.mpr fun o ho => ⟨o.value, rfl, fun hreached => absurd hreached (h o ho),
    fun _ => rfl⟩

/-- The section that is looked into is that of the document. -/
theorem expand_eq (d : Value) : expand tree directory d =
    inMapping (inEntry (sectionName (rootOf d))
      (inMapping (mapEntries (expandApplication tree directory)))) d := by
  unfold expand inMapping rootOf
  cases d.entries? <;> rfl

theorem sectionKind?_sectionName (root : Mapping) :
    sectionKind? (.string (sectionName root)) = some .applications := by
  unfold sectionName
  split <;> rfl

theorem forall₂_optionsOfField {root : Mapping} {a : Value} {f f' : Value × Value}
    (h : ChangesUnder "options" (inMapping (mapEntries (expandValue tree directory))) f f') :
    List.Forall₂ (Expands tree directory root)
      (optionsOfField (.string (sectionName root)) a f)
      (optionsOfField (.string (sectionName root)) a f') := by
  obtain ⟨hkey, hchanged, hkept⟩ := h
  by_cases hfield : f.1 = .string "options"
  · have htext : f.1.text? = some "options" := by
      rw [hfield]
      rfl
    rw [optionsOfField, optionsOfField, hkey, if_pos htext, if_pos htext,
      List.forall₂_map_left_iff, List.forall₂_map_right_iff]
    refine (forall₂_inMapping_mapEntries (hchanged hfield)).imp fun o o' ho => ?_
    refine ⟨o'.2, by rw [ho.1], fun _ => ho.2, fun hnot => ?_⟩
    exact absurd ⟨rfl, hfield⟩ hnot
  · obtain rfl : f' = f := Prod.ext hkey (hkept hfield)
    refine forall₂_expands_self fun o ho hreached => hfield ?_
    rw [← field_of_mem ho]
    exact hreached.2

theorem forall₂_optionsOfApplication {root : Mapping} {a a' : Value × Value}
    (ha : a.2.DistinctKeys) (hkey : a'.1 = a.1)
    (h : expandApplication tree directory a.2 = .ok a'.2) :
    List.Forall₂ (Expands tree directory root)
      (optionsOfApplication (.string (sectionName root)) a)
      (optionsOfApplication (.string (sectionName root)) a') := by
  rw [optionsOfApplication, optionsOfApplication, hkey]
  exact List.rel_flatMap (forall₂_inMapping_inEntry ha h) fun f f' => forall₂_optionsOfField

theorem forall₂_optionsOfSection {root : Mapping} {e e' : Value × Value}
    (he : e.2.DistinctKeys) (h : ChangesUnder (sectionName root)
      (inMapping (mapEntries (expandApplication tree directory))) e e') :
    List.Forall₂ (Expands tree directory root) (optionsOfSection e) (optionsOfSection e') := by
  obtain ⟨hkey, hchanged, hkept⟩ := h
  by_cases hname : e.1 = .string (sectionName root)
  · have hkind := sectionKind?_sectionName root
    have happs := (Overlay.distinctKeys_rootOf he).parts
    rw [optionsOfSection, optionsOfSection, hkey, hname, if_pos hkind, if_pos hkind]
    have hboth := (List.forall₂_and_left _ _).mpr
      ⟨happs, forall₂_inMapping_mapEntries (hchanged hname)⟩
    exact List.rel_flatMap hboth fun a a' ha => forall₂_optionsOfApplication ha.1.2 ha.2.1 ha.2.2
  · obtain rfl : e' = e := Prod.ext hkey (hkept hname)
    refine forall₂_expands_self fun o ho hreached => hname ?_
    rw [← sectionKey_of_mem ho]
    exact hreached.1

/-- Expansion keeps the places of all options; those that it reaches are expanded, and the others
stay as they are. -/
theorem forall₂_expands {d d' : Value} (hd : d.DistinctKeys)
    (h : expand tree directory d = .ok d') :
    List.Forall₂ (Expands tree directory (rootOf d)) (optionsOf d) (optionsOf d') := by
  rw [expand_eq] at h
  have hboth := (List.forall₂_and_left _ _).mpr
    ⟨(Overlay.distinctKeys_rootOf hd).parts, forall₂_inMapping_inEntry hd h⟩
  exact List.rel_flatMap hboth fun e e' he => forall₂_optionsOfSection he.1.2 he.2

/-! ## Expansion from elsewhere -/

section

variable {f g : Value → Except Failure Value}

theorem toOption_mapEntries_congr {m : Mapping}
    (h : ∀ e ∈ m, (f e.2).toOption = (g e.2).toOption) :
    (mapEntries f m).toOption = (mapEntries g m).toOption := by
  unfold mapEntries
  induction m with
  | nil => rfl
  | cons e es ih =>
      obtain ⟨he, hes⟩ := List.forall_mem_cons.mp h
      simp only [List.mapM_cons, toOption_bind, toOption_map, he, ih hes]

theorem toOption_inMapping_congr {f g : Mapping → Except Failure Mapping} {v : Value}
    (h : (f (rootOf v)).toOption = (g (rootOf v)).toOption) :
    (inMapping f v).toOption = (inMapping g v).toOption := by
  unfold inMapping
  cases hv : v.entries? with
  | none => rfl
  | some m =>
      rw [rootOf, hv, Option.getD_some] at h
      dsimp only
      rw [toOption_map, toOption_map, h]

theorem toOption_inEntry_congr {name : String} {m : Mapping}
    (h : ∀ v, (.string name, v) ∈ m → (f v).toOption = (g v).toOption) :
    (inEntry name f m).toOption = (inEntry name g m).toOption := by
  unfold inEntry
  cases hv : m.getName? name with
  | none => rfl
  | some v =>
      dsimp only
      rw [toOption_map, toOption_map, h v (Mapping.mem_of_getName?_eq_some hv)]

end

/-- Expansion depends on the options that it reaches. -/
theorem toOption_expand_congr {tree' : FileTree} {directory' : FilePath} {d : Value}
    (h : ∀ o ∈ optionsOf d, o.IsReached (rootOf d) →
      (expandValue tree directory o.value).toOption =
        (expandValue tree' directory' o.value).toOption) :
    (expand tree directory d).toOption = (expand tree' directory' d).toOption := by
  rw [expand_eq, expand_eq]
  apply toOption_inMapping_congr
  apply toOption_inEntry_congr
  intro applications happlications
  apply toOption_inMapping_congr
  apply toOption_mapEntries_congr
  intro a ha
  apply toOption_inMapping_congr
  apply toOption_inEntry_congr
  intro options hoptions
  apply toOption_inMapping_congr
  apply toOption_mapEntries_congr
  intro o ho
  have hmem := mem_optionsOf happlications (sectionKind?_sectionName (rootOf d)) ha hoptions rfl ho
  exact h _ hmem ⟨rfl, rfl⟩

end BundleCheck.Include
