import BundleCheck.Proofs.Except
import BundleCheck.Proofs.Yaml.Sameness
import BundleCheck.Yaml.Reader

/-! # Values that were read

A text in which a mapping holds a key twice is refused, so that no value that is read from a text
does. -/

namespace BundleCheck.Yaml

namespace Reader

variable {α β : Type}

/-! ## What a reader yields -/

/-- All that a reader may give has a property. -/
def Yields (P : α → Prop) (r : Reader α) : Prop :=
  ∀ surroundings left a left', r surroundings left = .ok (a, left') → P a

theorem yields_stop (P : α → Prop) (problem : Problem) : Yields P (stop problem) :=
  fun _ _ _ _ h => nomatch h

theorem yields_pure {P : α → Prop} {a : α} (ha : P a) : Yields P (pure a : Reader α) := by
  intro surroundings left b left' h
  cases h
  exact ha

theorem yields_true (r : Reader α) : Yields (fun _ => True) r :=
  fun _ _ _ _ _ => trivial

theorem Yields.bind {Q : α → Prop} {P : β → Prop} {r : Reader α} {f : α → Reader β}
    (hr : Yields Q r) (hf : ∀ a, Q a → Yields P (f a)) : Yields P (r >>= f) := by
  intro surroundings left b left' h
  obtain ⟨⟨a, mid⟩, ha, hb⟩ : ∃ p, r surroundings left = .ok p ∧
      f p.1 surroundings p.2 = .ok (b, left') := bind_eq_ok_iff.mp h
  exact hf a (hr _ _ _ _ ha) _ _ _ _ hb

theorem Yields.mapM {P : β → Prop} {f : α → Reader β} (hf : ∀ a, Yields P (f a)) (as : List α) :
    Yields (fun bs => ∀ b ∈ bs, P b) (as.mapM f) := by
  induction as with
  | nil => exact yields_pure nofun
  | cons a as ih =>
      rw [List.mapM_cons]
      exact (hf a).bind fun b hb => ih.bind fun bs hbs =>
        yields_pure (List.forall_mem_cons.mpr ⟨hb, hbs⟩)

/-! ## Values -/

theorem yields_scalarValue (rules : ValueRules) (place : Path) (m : Meaning) :
    Yields Value.DistinctKeys (scalarValue rules place m) := by
  cases m with
  | wide n => exact yields_stop _ _
  | _ => exact yields_pure rfl

theorem distinctKeys_append {m : Mapping} (hm : m.DistinctKeys) {k v : Value}
    (hk : k.DistinctKeys) (hv : v.DistinctKeys) (hfresh : m.contains k = false) :
    Mapping.DistinctKeys (m ++ [(k, v)]) := by
  constructor
  · intro e he
    rcases List.mem_append.mp he with he | he
    · exact hm.parts e he
    · rw [List.mem_singleton.mp he]
      exact ⟨hk, hv⟩
  · refine List.pairwise_append.mpr ⟨hm.keys, List.pairwise_singleton _ _, fun e he f hf => ?_⟩
    rw [List.mem_singleton.mp hf]
    simpa using List.any_eq_false.mp hfresh e he

/-- The entries that are added have keys that were not there. -/
theorem yields_addEntries {rules : ValueRules} (hrules : rules.repeats = false)
    {readValue : Cell → Reader Value} (hread : ∀ c, Yields Value.DistinctKeys (readValue c))
    (place : Path) {done : Mapping} (hdone : done.DistinctKeys) (cells : List (Cell × Cell)) :
    Yields Mapping.DistinctKeys (addEntries rules readValue place done cells) := by
  induction cells generalizing done with
  | nil => exact yields_pure hdone
  | cons cell rest ih =>
      obtain ⟨key, cell⟩ := cell
      rw [Reader.addEntries]
      refine (hread key).bind fun k hk => ?_
      rw [hrules]
      cases hfresh : done.contains k with
      | true => exact (yields_stop (fun _ => False) _).bind fun _ => False.elim
      | false =>
          exact (hread cell).bind fun v hv => ih (distinctKeys_append hdone hk hv hfresh)

theorem yields_valueWithin {rules : ValueRules} (hrules : rules.repeats = false) (fuel : Nat)
    (c : Cell) : Yields Value.DistinctKeys (valueWithin rules fuel c) := by
  induction fuel generalizing c with
  | zero => exact yields_stop _ _
  | succ fuel ih =>
      rw [valueWithin]
      refine (yields_true (content c)).bind fun found _ => ?_
      cases found with
      | scalar m => exact yields_scalarValue rules c.place m
      | items cells =>
          exact (Yields.mapM ih cells).bind fun vs hvs =>
            yields_pure (Value.distinctKeys_sequence_iff.mpr hvs)
      | entries cells =>
          exact (yields_addEntries hrules ih c.place Mapping.distinctKeys_nil cells).bind
            fun m hm => yields_pure (Value.distinctKeys_mapping_iff.mpr hm)
      | tagged tag inside =>
          dsimp only
          split
          · exact (ih inside).bind fun v hv => yields_pure hv
          · exact yields_stop _ _
      | absent => exact yields_pure rfl

end Reader

/-! ## Whole texts -/

theorem Document.read_yields {α : Type} {P : α → Prop} {reader : Cell → Reader α}
    (hreader : ∀ c, Reader.Yields P (reader c)) {d : Document} {a : α}
    (h : d.read reader = .ok a) : P a := by
  obtain ⟨⟨result, left⟩, hresult, h⟩ := bind_eq_ok_iff.mp h
  cases hfault : d.fault with
  | some fault => simp [hfault] at h
  | none =>
      simp only [hfault, Except.ok.injEq] at h
      rw [← h]
      exact hreader _ _ _ _ _ hresult

/-- No document of a text that is read holds a key twice. -/
theorem distinctKeys_of_readValues {text : String} {documents : List Value}
    (h : readValues text = .ok documents) : ∀ d ∈ documents, d.DistinctKeys := by
  have hread : ∀ {d : Document} {v : Value}, d.read Reader.value = .ok v → v.DistinctKeys :=
    Document.read_yields (Reader.yields_valueWithin rfl _)
  exact forall_mem_of_mapM (fun d _ v hv => hread hv) h

end BundleCheck.Yaml
