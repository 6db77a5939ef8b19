import BundleCheck.Yaml.Value
import Mathlib

/-! # Sameness of values

Sameness compares mappings without regard to the order of their entries. It is reflexive and
transitive, and it is symmetric on values in which no key comes twice: such are all values that
are read, since a mapping holds a key at most once. -/

namespace BundleCheck

/-! ## Numbers -/

theorem Double.same_refl (x : Double) : x.same x = true := by
  simp [Double.same]

theorem Double.same_symm {x y : Double} (h : x.same y = true) : y.same x = true := by
  simp only [Double.same, Bool.or_eq_true, beq_iff_eq, Bool.and_eq_true] at h ⊢
  exact h.imp Eq.symm And.symm

theorem Double.same_trans {x y z : Double} (hxy : x.same y = true) (hyz : y.same z = true) :
    x.same z = true := by
  simp only [Double.same, Bool.or_eq_true, beq_iff_eq, Bool.and_eq_true] at hxy hyz ⊢
  rcases hxy with rfl | hxy
  · exact hyz
  · rcases hyz with rfl | hyz
    · exact .inr hxy
    · exact .inr ⟨hxy.1, hyz.2⟩

namespace Yaml

theorem Number.same_refl (n : Number) : n.same n = true := by
  cases n with
  | int n => simp [Number.same]
  | float x => exact x.same_refl

theorem Number.same_symm {m n : Number} (h : m.same n = true) : n.same m = true := by
  cases m with
  | int m => cases n with
    | int n =>
      rw [Number.same, beq_iff_eq] at h ⊢
      exact h.symm
    | float y => cases h
  | float x => cases n with
    | int n => cases h
    | float y => exact Double.same_symm h

theorem Number.same_trans {l m n : Number} (hlm : l.same m = true) (hmn : m.same n = true) :
    l.same n = true := by
  cases l with
  | int l => cases m with
    | int m => cases n with
      | int n => simp_all [Number.same]
      | float z => cases hmn
    | float y => cases hlm
  | float x => cases m with
    | int m => cases hlm
    | float y => cases n with
      | int n => cases hmn
      | float z => exact Double.same_trans hlm hmn

/-! ## Distinct keys -/

/-- No mapping inside the value holds a key twice. -/
def Value.DistinctKeys (v : Value) : Prop :=
  v.repeatedKey? = none

instance (v : Value) : Decidable v.DistinctKeys :=
  decidable_of_iff (v.repeatedKey?.isNone = true) Option.isNone_iff_eq_none

/-- No key comes twice, nor does one inside the entries. -/
structure Mapping.DistinctKeys (m : Mapping) : Prop where
  parts : ∀ e ∈ m, e.1.DistinctKeys ∧ e.2.DistinctKeys
  keys : m.Pairwise fun a b => b.1.same a.1 = false

theorem Mapping.distinctKeys_nil : Mapping.DistinctKeys [] :=
  ⟨nofun, .nil⟩

theorem Mapping.distinctKeys_cons_iff {e : Value × Value} {es : Mapping} :
    Mapping.DistinctKeys (e :: es) ↔ (e.1.DistinctKeys ∧ e.2.DistinctKeys) ∧
      (∀ f ∈ es, f.1.same e.1 = false) ∧ Mapping.DistinctKeys es := by
  constructor
  · rintro ⟨hparts, hkeys⟩
    obtain ⟨hhead, htail⟩ := List.pairwise_cons.mp hkeys
    exact ⟨hparts e (by simp), hhead, fun f hf => hparts f (by simp [hf]), htail⟩
  · rintro ⟨he, hhead, hparts, hkeys⟩
    refine ⟨fun f hf => ?_, List.pairwise_cons.mpr ⟨hhead, hkeys⟩⟩
    rcases List.mem_cons.mp hf with rfl | hf
    · exact he
    · exact hparts f hf

namespace Value

theorem repeatedKeyOfItems?_eq_none_iff {items : List Value} :
    repeatedKeyOfItems? items = none ↔ ∀ v ∈ items, v.DistinctKeys := by
  induction items with
  | nil => simp [repeatedKeyOfItems?]
  | cons v vs ih => simp [repeatedKeyOfItems?, ih, DistinctKeys]

theorem repeatedKeyOfEntries?_eq_none_iff {seen : List Value} {es : Mapping} :
    repeatedKeyOfEntries? seen es = none ↔
      Mapping.DistinctKeys es ∧ ∀ e ∈ es, ∀ k ∈ seen, e.1.same k = false := by
  induction es generalizing seen with
  | nil => simp [repeatedKeyOfEntries?, Mapping.distinctKeys_nil]
  | cons e es ih =>
      have hseen : (if seen.any e.1.same then some e.1 else none) = none ↔
          ∀ k ∈ seen, e.1.same k = false := by
        simp
      simp only [repeatedKeyOfEntries?, Option.orElse_eq_none, hseen, ih,
        Mapping.distinctKeys_cons_iff, List.forall_mem_cons, DistinctKeys]
      constructor
      · rintro ⟨hk, hs, hv, hes, hrest⟩
        exact ⟨⟨⟨hk, hv⟩, fun f hf => (hrest f hf).1, hes⟩, hs, fun f hf => (hrest f hf).2⟩
      · rintro ⟨⟨⟨hk, hv⟩, hhead, hes⟩, hs, hrest⟩
        exact ⟨hk, hs, hv, hes, fun f hf => ⟨hhead f hf, hrest f hf⟩⟩

theorem distinctKeys_mapping_iff {m : Mapping} :
    (Value.mapping m).DistinctKeys ↔ Mapping.DistinctKeys m := by
  rw [DistinctKeys, repeatedKey?, repeatedKeyOfEntries?_eq_none_iff]
  simp

theorem distinctKeys_string (s : String) : (Value.string s).DistinctKeys :=
  rfl

theorem distinctKeys_sequence_iff {items : List Value} :
    (Value.sequence items).DistinctKeys ↔ ∀ v ∈ items, v.DistinctKeys := by
  rw [DistinctKeys, repeatedKey?, repeatedKeyOfItems?_eq_none_iff]

/-! ## Reflexivity and transitivity -/

/-- Induction over values, with what holds of the items and of both parts of the entries. -/
theorem treeInduction {P : Value → Prop} (null : P .null) (bool : ∀ b, P (.bool b))
    (number : ∀ n, P (.number n)) (string : ∀ s, P (.string s))
    (sequence : ∀ items, (∀ v ∈ items, P v) → P (.sequence items))
    (mapping : ∀ entries : Mapping, (∀ e ∈ entries, P e.1 ∧ P e.2) → P (.mapping entries))
    (tagged : ∀ tag v, P v → P (.tagged tag v)) (v : Value) : P v := by
  refine Value.rec (motive_1 := P) (motive_2 := fun items => ∀ v ∈ items, P v)
    (motive_3 := fun entries => ∀ e ∈ entries, P e.1 ∧ P e.2) (motive_4 := fun e => P e.1 ∧ P e.2)
    null bool number string sequence mapping tagged ?_ ?_ ?_ ?_ ?_ v
  · exact nofun
  · exact fun v vs hv hvs => List.forall_mem_cons.mpr ⟨hv, hvs⟩
  · exact nofun
  · exact fun e es he hes => List.forall_mem_cons.mpr ⟨he, hes⟩
  · exact fun k v hk hv => ⟨hk, hv⟩

attribute [local simp] same sameItems sameEntries

theorem sameEntries_iff {es fs : Mapping} :
    sameEntries es fs = true ↔
      ∀ e ∈ es, ∃ f ∈ fs, e.1.same f.1 = true ∧ e.2.same f.2 = true := by
  induction es with
  | nil => simp
  | cons e es ih => simp [ih]

theorem sameItems_iff {xs ys : List Value} :
    sameItems xs ys = true ↔ List.Forall₂ (fun x y => x.same y = true) xs ys := by
  induction xs generalizing ys with
  | nil => cases ys <;> simp
  | cons x xs ih => cases ys <;> simp [ih]

theorem same_null_iff {w : Value} : Value.null.same w = true ↔ w = .null := by
  cases w <;> simp

theorem same_bool_iff {b : Bool} {w : Value} : (Value.bool b).same w = true ↔ w = .bool b := by
  cases w with
  | bool c => simpa using eq_comm
  | _ => simp

theorem same_number_iff {n : Number} {w : Value} :
    (Value.number n).same w = true ↔ ∃ k, w = .number k ∧ n.same k = true := by
  cases w <;> simp

theorem same_string_iff {s : String} {w : Value} :
    (Value.string s).same w = true ↔ w = .string s := by
  cases w with
  | string t => simpa using eq_comm
  | _ => simp

theorem same_string_right_iff {v : Value} {s : String} :
    v.same (.string s) = true ↔ v = .string s := by
  cases v <;> simp

theorem same_sequence_iff {xs : List Value} {w : Value} :
    (Value.sequence xs).same w = true ↔
      ∃ ys, w = .sequence ys ∧ List.Forall₂ (fun x y => x.same y = true) xs ys := by
  cases w <;> simp [sameItems_iff]

theorem same_mapping_iff {es : Mapping} {w : Value} :
    (Value.mapping es).same w = true ↔ ∃ fs, w = .mapping fs ∧ es.length = fs.length ∧
      ∀ e ∈ es, ∃ f ∈ fs, e.1.same f.1 = true ∧ e.2.same f.2 = true := by
  cases w <;> simp [sameEntries_iff]

theorem same_tagged_iff {s : String} {v w : Value} :
    (Value.tagged s v).same w = true ↔
      ∃ t u, w = .tagged t u ∧ tagName s = tagName t ∧ v.same u = true := by
  cases w <;> simp

theorem same_refl (v : Value) : v.same v = true := by
  induction v using Value.treeInduction with
  | null => rfl
  | bool b => exact same_bool_iff.mpr rfl
  | number n => exact same_number_iff.mpr ⟨n, rfl, n.same_refl⟩
  | string s => exact same_string_iff.mpr rfl
  | sequence items ih => exact same_sequence_iff.mpr ⟨items, rfl, List.forall₂_same.mpr ih⟩
  | mapping entries ih =>
      exact same_mapping_iff.mpr ⟨entries, rfl, rfl, fun e he => ⟨e, he, ih e he⟩⟩
  | tagged tag v ih => exact same_tagged_iff.mpr ⟨tag, v, rfl, rfl, ih⟩

theorem same_trans {u v w : Value} (huv : u.same v = true) (hvw : v.same w = true) :
    u.same w = true := by
  induction u using Value.treeInduction generalizing v w with
  | null => exact same_null_iff.mp huv ▸ hvw
  | bool b => exact same_bool_iff.mp huv ▸ hvw
  | string s => exact same_string_iff.mp huv ▸ hvw
  | number n =>
      obtain ⟨k, rfl, hnk⟩ := same_number_iff.mp huv
      obtain ⟨l, rfl, hkl⟩ := same_number_iff.mp hvw
      exact same_number_iff.mpr ⟨l, rfl, Number.same_trans hnk hkl⟩
  | sequence xs ih =>
      obtain ⟨ys, rfl, hxy⟩ := same_sequence_iff.mp huv
      obtain ⟨zs, rfl, hyz⟩ := same_sequence_iff.mp hvw
      refine same_sequence_iff.mpr ⟨zs, rfl, ?_⟩
      clear huv hvw
      induction hxy generalizing zs with
      | nil => exact hyz
      | cons hx hxs ihxs =>
          cases hyz with
          | cons hy hys =>
              exact .cons (ih _ (by simp) hx hy)
                (ihxs (fun x hx => ih x (by simp [hx])) _ hys)
  | mapping es ih =>
      obtain ⟨fs, rfl, hlen, hes⟩ := same_mapping_iff.mp huv
      obtain ⟨gs, rfl, hlen', hfs⟩ := same_mapping_iff.mp hvw
      refine same_mapping_iff.mpr ⟨gs, rfl, hlen.trans hlen', fun e he => ?_⟩
      obtain ⟨f, hf, hkey, hvalue⟩ := hes e he
      obtain ⟨g, hg, hkey', hvalue'⟩ := hfs f hf
      exact ⟨g, hg, (ih e he).1 hkey hkey', (ih e he).2 hvalue hvalue'⟩
  | tagged tag v ih =>
      obtain ⟨t, x, rfl, htag, hx⟩ := same_tagged_iff.mp huv
      obtain ⟨t', y, rfl, htag', hy⟩ := same_tagged_iff.mp hvw
      exact same_tagged_iff.mpr ⟨t', y, rfl, htag.trans htag', ih hx hy⟩

/-! ## Symmetry -/

/-- When distinct items have distinct counterparts in a list that is no longer, every item of that
list is a counterpart. -/
theorem exists_of_length_le {α β : Type} {R : α → β → Prop} {xs : List α} {ys : List β}
    (hlen : ys.length ≤ xs.length) (hpair : xs.Pairwise fun a b => ∀ y ∈ ys, R a y → ¬ R b y)
    (h : ∀ x ∈ xs, ∃ y ∈ ys, R x y) : ∀ y ∈ ys, ∃ x ∈ xs, R x y := by
  induction xs generalizing ys with
  | nil =>
      obtain rfl : ys = [] := List.length_eq_zero_iff.mp (Nat.le_zero.mp hlen)
      exact nofun
  | cons x xs ih =>
      obtain ⟨hhead, htail⟩ := List.pairwise_cons.mp hpair
      obtain ⟨y₀, hy₀, hx⟩ := h x (by simp)
      obtain ⟨before, after, rfl⟩ := List.append_of_mem hy₀
      have hrest : ∀ y ∈ before ++ after, ∃ x' ∈ xs, R x' y := by
        refine ih ?_ ?_ ?_
        · simp only [List.length_append, List.length_cons] at hlen ⊢
          omega
        · exact htail.imp fun hab y hy => hab y (by simp at hy ⊢; tauto)
        · intro x' hx'
          obtain ⟨y, hy, hR⟩ := h x' (by simp [hx'])
          have hne : y ≠ y₀ := fun he => hhead x' hx' y₀ hy₀ hx (he ▸ hR)
          exact ⟨y, by simp [hne] at hy ⊢; tauto, hR⟩
      intro y hy
      by_cases hyy₀ : y = y₀
      · exact ⟨x, by simp, hyy₀ ▸ hx⟩
      · obtain ⟨x', hx', hR⟩ := hrest y (by simp [hyy₀] at hy ⊢; tauto)
        exact ⟨x', by simp [hx'], hR⟩

/-- Sameness is symmetric if no key comes twice on the left. -/
theorem same_symm {v w : Value} (hv : v.DistinctKeys) (h : v.same w = true) :
    w.same v = true := by
  induction v using Value.treeInduction generalizing w with
  | null => exact same_null_iff.mp h ▸ same_refl _
  | bool b => exact same_bool_iff.mp h ▸ same_refl _
  | string s => exact same_string_iff.mp h ▸ same_refl _
  | number n =>
      obtain ⟨k, rfl, hk⟩ := same_number_iff.mp h
      exact same_number_iff.mpr ⟨n, rfl, Number.same_symm hk⟩
  | sequence xs ih =>
      obtain ⟨ys, rfl, hxy⟩ := same_sequence_iff.mp h
      refine same_sequence_iff.mpr ⟨xs, rfl, ?_⟩
      rw [distinctKeys_sequence_iff] at hv
      clear h
      induction hxy with
      | nil => exact .nil
      | cons hx hxs ihxs =>
          exact .cons (ih _ (by simp) (hv _ (by simp)) hx)
            (ihxs (fun x hx => ih x (by simp [hx])) fun x hx => hv x (by simp [hx]))
  | mapping es ih =>
      obtain ⟨fs, rfl, hlen, hes⟩ := same_mapping_iff.mp h
      obtain ⟨hparts, hkeys⟩ := distinctKeys_mapping_iff.mp hv
      -- Two entries with one counterpart would have the same key.
      have hpair : es.Pairwise fun a b => ∀ f ∈ fs, (a.1.same f.1 = true ∧ a.2.same f.2 = true) →
          ¬(b.1.same f.1 = true ∧ b.2.same f.2 = true) := by
        refine hkeys.imp_of_mem fun {a b} ha _ hab f _ haf hbf => ?_
        have hfa : f.1.same a.1 = true := (ih a ha).1 (hparts a ha).1 haf.1
        exact absurd (same_trans hbf.1 hfa) (by simp [hab])
      refine same_mapping_iff.mpr ⟨es, rfl, hlen.symm, fun f hf => ?_⟩
      obtain ⟨e, he, hef⟩ := exists_of_length_le hlen.ge hpair hes f hf
      exact ⟨e, he, (ih e he).1 (hparts e he).1 hef.1, (ih e he).2 (hparts e he).2 hef.2⟩
  | tagged tag v ih =>
      obtain ⟨t, x, rfl, htag, hx⟩ := same_tagged_iff.mp h
      exact same_tagged_iff.mpr ⟨tag, v, rfl, htag.symm, ih hv hx⟩

theorem same_comm {v w : Value} (hv : v.DistinctKeys) (hw : w.DistinctKeys) :
    v.same w = w.same v :=
  Bool.eq_iff_iff.mpr ⟨same_symm hv, same_symm hw⟩

/-- Values that are the same are the same as the same values. -/
theorem same_congr_left {u v : Value} (hu : u.DistinctKeys) (h : u.same v = true) (w : Value) :
    u.same w = v.same w :=
  Bool.eq_iff_iff.mpr ⟨same_trans (same_symm hu h), same_trans h⟩

end Value

end Yaml

end BundleCheck
