import BundleCheck.Proofs.Overlay.Fields

/-! # Entries of a merged mapping

Merging one entry leaves the entries under other keys as they are, keys and all. So what a merge
gives depends on the order of entries in nothing but the order of its own entries, and entries under
different keys can be merged in either order. -/

namespace BundleCheck

open Yaml

/-! ## Steps that disregard order -/

/-- States that are alike stay alike through a step. -/
structure Orderless {σ β : Type} (I : σ → Prop) (P : β → Prop) (R : σ → σ → Prop)
    (step : σ → β → σ) : Prop where
  refl : ∀ s : σ, R s s
  trans : ∀ {s t u : σ}, R s t → R t u → R s u
  keeps : ∀ {s : σ} {e : β}, I s → P e → I (step s e)
  congr : ∀ {s t : σ} {e : β}, I s → I t → P e → R s t → R (step s e) (step t e)

namespace Orderless

variable {σ β : Type} {I : σ → Prop} {P : β → Prop} {R : σ → σ → Prop} {step : σ → β → σ}

theorem foldl_keeps (h : Orderless I P R step) {es : List β} (hes : ∀ e ∈ es, P e) {s : σ}
    (hs : I s) : I (es.foldl step s) := by
  induction es generalizing s with
  | nil => exact hs
  | cons e es ih =>
      obtain ⟨he, hes⟩ := List.forall_mem_cons.mp hes
      exact ih hes (h.keeps hs he)

theorem foldl_congr (h : Orderless I P R step) {es : List β} (hes : ∀ e ∈ es, P e) {s t : σ}
    (hs : I s) (ht : I t) (hst : R s t) : R (es.foldl step s) (es.foldl step t) := by
  induction es generalizing s t with
  | nil => exact hst
  | cons e es ih =>
      obtain ⟨he, hes⟩ := List.forall_mem_cons.mp hes
      exact ih hes (h.keeps hs he) (h.keeps ht he) (h.congr hs ht he hst)

/-- A step that commutes with each of some steps commutes with all of them. -/
theorem foldl_step (h : Orderless I P R step) {fs : List β} (hfs : ∀ f ∈ fs, P f) {e : β}
    (he : P e) (hswap : ∀ f ∈ fs, ∀ s, I s → R (step (step s e) f) (step (step s f) e)) {s : σ}
    (hs : I s) : R (fs.foldl step (step s e)) (step (fs.foldl step s) e) := by
  induction fs generalizing s with
  | nil => exact h.refl _
  | cons f fs ih =>
      obtain ⟨hf, hfs⟩ := List.forall_mem_cons.mp hfs
      obtain ⟨hswapf, hswapfs⟩ := List.forall_mem_cons.mp hswap
      have hfirst := h.foldl_congr hfs (h.keeps (h.keeps hs he) hf) (h.keeps (h.keeps hs hf) he)
        (hswapf s hs)
      exact h.trans hfirst (ih hfs hswapfs (h.keeps hs hf))

/-- Steps that commute one by one commute together. -/
theorem foldl_comm (h : Orderless I P R step) {es fs : List β} (hes : ∀ e ∈ es, P e)
    (hfs : ∀ f ∈ fs, P f)
    (hswap : ∀ e ∈ es, ∀ f ∈ fs, ∀ s, I s → R (step (step s e) f) (step (step s f) e)) {s : σ}
    (hs : I s) : R (fs.foldl step (es.foldl step s)) (es.foldl step (fs.foldl step s)) := by
  induction es generalizing s with
  | nil => exact h.refl _
  | cons e es ih =>
      obtain ⟨he, hes⟩ := List.forall_mem_cons.mp hes
      obtain ⟨hswape, hswapes⟩ := List.forall_mem_cons.mp hswap
      have hmoved := h.foldl_congr hes (h.foldl_keeps hfs (h.keeps hs he))
        (h.keeps (h.foldl_keeps hfs hs) he) (h.foldl_step hfs he hswape hs)
      exact h.trans (ih hes hswapes (h.keeps hs he)) hmoved

end Orderless

/-! ## Entries and keys -/

namespace Yaml.Mapping

theorem DistinctKeys.nodup {m : Mapping} (hm : m.DistinctKeys) : m.Nodup := by
  refine hm.keys.imp fun {a b} h hab => ?_
  rw [hab, Value.same_refl] at h
  cases h

/-- Mappings with the same entries differ in their order only. -/
theorem perm_of_mem_iff {m n : Mapping} (hm : m.DistinctKeys) (hn : n.DistinctKeys)
    (h : ∀ e, e ∈ m ↔ e ∈ n) : m.Perm n :=
  (List.perm_ext_iff_of_nodup hm.nodup hn.nodup).mpr h

/-- The stored key depends on the entries with the key. -/
theorem storedKey_congr {m n : Mapping} (hn : n.DistinctKeys) {k : Value} (hk : k.DistinctKeys)
    (h : ∀ e, k.same e.1 = true → (e ∈ m ↔ e ∈ n)) :
    m.storedKey k = n.storedKey k := by
  rcases m.storedKey_cases k with ⟨e, he, hke, hstored⟩ | ⟨hnone, hstored⟩
  · have hen := (h e hke).mp he
    rcases n.storedKey_cases k with ⟨f, hf, hkf, hstored'⟩ | ⟨hnone', -⟩
    · rw [hstored, hstored', hn.eq_of_same hen hf (Value.same_trans (Value.same_symm hk hke) hkf)]
    · rw [hnone' e hen] at hke
      cases hke
  · rcases n.storedKey_cases k with ⟨f, hf, hkf, -⟩ | ⟨-, hstored'⟩
    · rw [hnone f ((h f hkf).mpr hf)] at hkf
      cases hkf
    · rw [hstored, hstored']

theorem same_storedKey (m : Mapping) (k : Value) : k.same (m.storedKey k) = true := by
  rcases m.storedKey_cases k with ⟨e, -, hke, hstored⟩ | ⟨-, hstored⟩
  · rwa [hstored]
  · rw [hstored]
    exact Value.same_refl k

/-- A key under which an entry stands is stored as it is. -/
theorem storedKey_of_mem {m : Mapping} (hm : m.DistinctKeys) {k : Value} (hk : k.DistinctKeys)
    {e : Value × Value} (he : e ∈ m) (hke : k.same e.1 = true) : m.storedKey k = e.1 := by
  rcases m.storedKey_cases k with ⟨f, hf, hkf, hstored⟩ | ⟨hnone, -⟩
  · rw [hstored, hm.eq_of_same hf he (Value.same_trans (Value.same_symm hk hkf) hke)]
  · rw [hnone e he] at hke
    cases hke

end Yaml.Mapping

namespace Overlay

/-! ## Merging one part -/

def IsMergedEntry (m : Mapping) (e b : Value × Value) : Prop :=
  ∃ v, mergedPart e.1 (m.get? e.1) e.2 = some v ∧ b = (m.storedKey e.1, v)

theorem IsMergedEntry.same {m : Mapping} {e b : Value × Value} (h : IsMergedEntry m e b) :
    e.1.same b.1 = true := by
  obtain ⟨v, -, rfl⟩ := h
  exact m.same_storedKey e.1

theorem mem_mergePart_iff {m : Mapping} (hm : m.DistinctKeys) {e b : Value × Value}
    (he : e.1.DistinctKeys) :
    b ∈ mergePart m e ↔ (b ∈ m ∧ e.1.same b.1 = false) ∨ IsMergedEntry m e b := by
  unfold mergePart IsMergedEntry
  cases mergedPart e.1 (m.get? e.1) e.2 with
  | some v => simp [Mapping.mem_insert_iff hm he]
  | none => simp [Mapping.mem_remove_iff hm he]

theorem mem_mergePart_of_same_eq_false {m : Mapping} (hm : m.DistinctKeys) {e b : Value × Value}
    (he : e.1.DistinctKeys) (hb : e.1.same b.1 = false) : b ∈ mergePart m e ↔ b ∈ m := by
  rw [mem_mergePart_iff hm he]
  refine ⟨?_, fun h => .inl ⟨h, hb⟩⟩
  rintro (⟨h, -⟩ | h)
  · exact h
  · rw [h.same] at hb
    cases hb

/-- The merged entry depends on the entries with the key. -/
theorem isMergedEntry_congr {m n : Mapping} (hm : m.DistinctKeys) (hn : n.DistinctKeys)
    {e b : Value × Value} (he : e.1.DistinctKeys)
    (h : ∀ b : Value × Value, e.1.same b.1 = true → (b ∈ m ↔ b ∈ n)) :
    IsMergedEntry m e b ↔ IsMergedEntry n e b := by
  have hget : m.get? e.1 = n.get? e.1 := by
    apply Option.ext
    intro v
    rw [Mapping.get?_eq_some_iff hm he, Mapping.get?_eq_some_iff hn he]
    exact exists_congr fun b => ⟨fun ⟨hb, hkey, hv⟩ => ⟨(h b hkey).mp hb, hkey, hv⟩,
      fun ⟨hb, hkey, hv⟩ => ⟨(h b hkey).mpr hb, hkey, hv⟩⟩
  rw [IsMergedEntry, IsMergedEntry, hget, Mapping.storedKey_congr hn he h]

theorem orderless_mergePart : Orderless Mapping.DistinctKeys
    (fun e : Value × Value => e.1.DistinctKeys ∧ e.2.DistinctKeys) List.Perm mergePart where
  refl := List.Perm.refl
  trans := List.Perm.trans
  keeps hm he := keyLocal_mergePart.distinctKeys hm he
  congr {m n e} hm hn he hperm := by
    refine Mapping.perm_of_mem_iff (keyLocal_mergePart.distinctKeys hm he)
      (keyLocal_mergePart.distinctKeys hn he) fun b => ?_
    rw [mem_mergePart_iff hm he.1, mem_mergePart_iff hn he.1, hperm.mem_iff,
      isMergedEntry_congr hm hn he.1 fun b _ => hperm.mem_iff]

/-- Parts under different keys can be merged in either order. -/
theorem mergePart_comm {m : Mapping} (hm : m.DistinctKeys) {e f : Value × Value}
    (he : e.1.DistinctKeys ∧ e.2.DistinctKeys) (hf : f.1.DistinctKeys ∧ f.2.DistinctKeys)
    (hne : e.1.same f.1 = false) :
    (mergePart (mergePart m e) f).Perm (mergePart (mergePart m f) e) := by
  have hme := keyLocal_mergePart.distinctKeys hm he
  have hmf := keyLocal_mergePart.distinctKeys hm hf
  have hapart : ∀ b : Value × Value, f.1.same b.1 = true → e.1.same b.1 = false := by
    intro b hfb
    rw [Bool.eq_false_iff]
    intro heb
    rw [Value.same_trans heb (Value.same_symm hf.1 hfb)] at hne
    cases hne
  have hapart' : ∀ b : Value × Value, e.1.same b.1 = true → f.1.same b.1 = false :=
    fun b heb => Bool.eq_false_iff.mpr fun hfb => by simp [hapart b hfb] at heb
  refine Mapping.perm_of_mem_iff (keyLocal_mergePart.distinctKeys hme hf)
    (keyLocal_mergePart.distinctKeys hmf he) fun b => ?_
  have hnewf : IsMergedEntry (mergePart m e) f b ↔ IsMergedEntry m f b :=
    isMergedEntry_congr hme hm hf.1 fun b hb =>
      mem_mergePart_of_same_eq_false hm he.1 (hapart b hb)
  have hnewe : IsMergedEntry (mergePart m f) e b ↔ IsMergedEntry m e b :=
    isMergedEntry_congr hmf hm he.1 fun b hb =>
      mem_mergePart_of_same_eq_false hm hf.1 (hapart' b hb)
  have hsidee : IsMergedEntry m e b → f.1.same b.1 = false := fun h => hapart' b h.same
  have hsidef : IsMergedEntry m f b → e.1.same b.1 = false := fun h => hapart b h.same
  rw [mem_mergePart_iff hme hf.1, mem_mergePart_iff hmf he.1, mem_mergePart_iff hm he.1,
    mem_mergePart_iff hm hf.1, hnewf, hnewe]
  tauto

end Overlay

end BundleCheck
