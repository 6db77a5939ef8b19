import BundleCheck.Proofs.Overlay.Fields

/-! # Merging machines

A key of an overlay names the machine whose key has the same text. As long as it names one machine
only, merging changes what the named machine holds, and no other machine. -/

namespace BundleCheck.Overlay

open Yaml

/-! ## Names of machines -/

/-- Zero is written with two texts that are one key. -/
def isZeroKey : Value → Bool
  | .number (.float x) => x.isZero
  | _ => false

theorem keyText?_eq_of_same {a b : Value} (ha : isZeroKey a = false) (h : a.same b = true) :
    keyText? a = keyText? b := by
  cases a with
  | null => rw [Value.same_null_iff.mp h]
  | bool x => rw [Value.same_bool_iff.mp h]
  | string s => rw [Value.same_string_iff.mp h]
  | sequence xs =>
      obtain ⟨ys, rfl, -⟩ := Value.same_sequence_iff.mp h
      rfl
  | mapping es =>
      obtain ⟨fs, rfl, -⟩ := Value.same_mapping_iff.mp h
      rfl
  | tagged tag v =>
      obtain ⟨t, w, rfl, -⟩ := Value.same_tagged_iff.mp h
      rfl
  | number n =>
      obtain ⟨m, rfl, hnm⟩ := Value.same_number_iff.mp h
      cases n with
      | int i =>
          cases m with
          | int j =>
              rw [beq_iff_eq.mp hnm]
          | float y => cases hnm
      | float x =>
          cases m with
          | int j => cases hnm
          | float y =>
              have hx : x.isZero = false := ha
              have hxy : x = y := by simpa [Number.same, Double.same, hx] using hnm
              rw [hxy]

/-- The keys name one machine: they have the same text, or neither has one and they are the same
key. -/
def nameSame (a b : Value) : Bool :=
  match keyText? a with
  | some s => keyText? b == some s
  | none => a.same b

theorem nameSame_of_keyText? {a b : Value} {s : List Char} (ha : keyText? a = some s) :
    nameSame a b = true ↔ keyText? b = some s := by
  simp [nameSame, ha]

theorem nameSame_of_keyText?_eq_none {a b : Value} (ha : keyText? a = none) :
    nameSame a b = a.same b := by
  simp [nameSame, ha]

theorem isZeroKey_of_keyText?_eq_none {a : Value} (ha : keyText? a = none) :
    isZeroKey a = false := by
  cases a with
  | number n => cases ha
  | _ => rfl

theorem nameSame_refl (a : Value) : nameSame a a = true := by
  cases ha : keyText? a with
  | some s => exact (nameSame_of_keyText? ha).mpr ha
  | none =>
      rw [nameSame_of_keyText?_eq_none ha]
      exact Value.same_refl a

theorem nameSame_symm {a b : Value} (hd : a.DistinctKeys) (h : nameSame a b = true) :
    nameSame b a = true := by
  cases ha : keyText? a with
  | some s =>
      rw [nameSame_of_keyText? ha] at h
      exact (nameSame_of_keyText? h).mpr ha
  | none =>
      rw [nameSame_of_keyText?_eq_none ha] at h
      have hb : keyText? b = none :=
        (keyText?_eq_of_same (isZeroKey_of_keyText?_eq_none ha) h).symm.trans ha
      rw [nameSame_of_keyText?_eq_none hb]
      exact Value.same_symm hd h

theorem nameSame_trans {a b c : Value} (hab : nameSame a b = true) (hbc : nameSame b c = true) :
    nameSame a c = true := by
  cases ha : keyText? a with
  | some s =>
      rw [nameSame_of_keyText? ha] at hab ⊢
      exact (nameSame_of_keyText? hab).mp hbc
  | none =>
      rw [nameSame_of_keyText?_eq_none ha] at hab ⊢
      have hb : keyText? b = none :=
        (keyText?_eq_of_same (isZeroKey_of_keyText?_eq_none ha) hab).symm.trans ha
      rw [nameSame_of_keyText?_eq_none hb] at hbc
      exact Value.same_trans hab hbc

/-- The same key names the same machine, zero aside. -/
theorem nameSame_of_same {a b : Value} (ha : isZeroKey a = false) (h : a.same b = true) :
    nameSame a b = true := by
  cases htext : keyText? a with
  | some s =>
      rw [nameSame_of_keyText? htext, ← keyText?_eq_of_same ha h, htext]
  | none => rwa [nameSame_of_keyText?_eq_none htext]

theorem sameMachine_iff {a b : Value} :
    sameMachine a b = true ↔ ∃ s, keyText? a = some s ∧ keyText? b = some s := by
  unfold sameMachine
  cases keyText? a with
  | none => simp
  | some s =>
      cases keyText? b with
      | none => simp
      | some t => simpa using eq_comm

/-! ## One machine of a section -/

/-- At most one machine of a section has the name that a key gives. -/
def NamedOnce (m : Mapping) (k : Value) : Prop :=
  ∀ a ∈ m, ∀ b ∈ m, nameSame k a.1 = true → nameSame k b.1 = true → a = b

theorem namedOnce_of_sameMachine {m : Mapping} (hm : m.DistinctKeys) {k : Value}
    (hk : k.DistinctKeys)
    (h : ∀ a ∈ m, ∀ b ∈ m, sameMachine a.1 k = true → sameMachine b.1 k = true → a = b) :
    NamedOnce m k := by
  intro a ha b hb hka hkb
  cases htext : keyText? k with
  | some s =>
      rw [nameSame_of_keyText? htext] at hka hkb
      exact h a ha b hb (sameMachine_iff.mpr ⟨s, hka, htext⟩) (sameMachine_iff.mpr ⟨s, hkb, htext⟩)
  | none =>
      rw [nameSame_of_keyText?_eq_none htext] at hka hkb
      exact hm.eq_of_same ha hb (Value.same_trans (Value.same_symm hk hka) hkb)

def machine? (m : Mapping) (k : Value) : Option (Value × Value) :=
  m.find? fun b => nameSame k b.1

theorem nameSame_of_machine?_eq_some {m : Mapping} {k : Value} {b : Value × Value}
    (h : machine? m k = some b) : nameSame k b.1 = true := by
  simpa using List.find?_some h

theorem machine?_eq_some_iff {m : Mapping} {k : Value} (hn : NamedOnce m k) {b : Value × Value} :
    machine? m k = some b ↔ b ∈ m ∧ nameSame k b.1 = true := by
  constructor
  · intro h
    exact ⟨List.mem_of_find?_eq_some h, nameSame_of_machine?_eq_some h⟩
  · rintro ⟨hb, hkb⟩
    cases hfind : machine? m k with
    | none =>
        have := List.find?_eq_none.mp hfind b hb
        simp [hkb] at this
    | some c =>
        have hc := List.mem_of_find?_eq_some hfind
        rw [hn c hc b hb (nameSame_of_machine?_eq_some hfind) hkb]

/-- Keys with one name name the same machine. -/
theorem machine?_congr {m : Mapping} {j k : Value} (hj : j.DistinctKeys)
    (h : nameSame j k = true) : machine? m j = machine? m k :=
  List.find?_congr fun _ _ => Bool.eq_iff_iff.mpr
    ⟨nameSame_trans (nameSame_symm hj h), nameSame_trans h⟩

/-! ## Merging one machine -/

/-- The key under which a machine of an overlay is merged. -/
def machineKey (m : Mapping) (k : Value) : Value :=
  ((m.find? fun b => sameMachine b.1 k).map (·.1)).getD k

/-- A machine is merged as any part is, under the key that names it. -/
theorem mergeMachine_eq (m : Mapping) {e : Value × Value} (he : e.2.DistinctKeys) :
    mergeMachine m e = mergePart m (machineKey m e.1, e.2) := by
  obtain ⟨k, v⟩ := e
  unfold mergeMachine machineKey
  cases v with
  | mapping fields =>
      have hfields := mergeFields_nil (Value.distinctKeys_mapping_iff.mp he)
      rw [mergePart_mapping]
      dsimp only
      split
      next existing hget => rw [hget, fieldsOf]
      next hget => rw [fieldsOf_eq_nil fun fields h => hget fields h, hfields]
  | _ => rfl

/-- The entry of a machine after a merge; the key that was there is kept. -/
def mergedMachine (old : Option (Value × Value)) (e : Value × Value) : Option (Value × Value) :=
  (mergedPart e.1 (old.map (·.2)) e.2).map fun v => ((old.map (·.1)).getD e.1, v)

/-- The merged entry is one of the named machine. -/
theorem nameSame_of_mergedMachine {m : Mapping} {e b : Value × Value}
    (h : mergedMachine (machine? m e.1) e = some b) : nameSame e.1 b.1 = true := by
  obtain ⟨v, -, rfl⟩ := Option.map_eq_some_iff.mp h
  cases hmachine : machine? m e.1 with
  | none => exact nameSame_refl e.1
  | some c => exact (nameSame_of_machine?_eq_some hmachine : nameSame e.1 c.1 = true)

theorem same_machineKey {m : Mapping} (hm : m.DistinctKeys) {k : Value} (hn : NamedOnce m k)
    (hzero : isZeroKey k = false) {b : Value × Value} (hb : b ∈ m) :
    (machineKey m k).same b.1 = nameSame k b.1 := by
  unfold machineKey
  cases hfind : m.find? fun b => sameMachine b.1 k with
  | some c =>
      -- Both sides say that the entry is the one found.
      have hc := List.mem_of_find?_eq_some hfind
      obtain ⟨s, hcs, hks⟩ := sameMachine_iff.mp (by simpa using List.find?_some hfind)
      have hkc : nameSame k c.1 = true := (nameSame_of_keyText? hks).mpr hcs
      rw [Option.map_some, Option.getD_some, Bool.eq_iff_iff]
      constructor
      · intro h
        rwa [← hm.eq_of_same hc hb h]
      · intro h
        rw [hn c hc b hb hkc h]
        exact Value.same_refl _
  | none =>
      rw [Option.map_none, Option.getD_none, Bool.eq_iff_iff]
      refine ⟨nameSame_of_same hzero, fun h => ?_⟩
      cases htext : keyText? k with
      | some s =>
          have hfound : sameMachine b.1 k = true :=
            sameMachine_iff.mpr ⟨s, (nameSame_of_keyText? htext).mp h, htext⟩
          simp [List.find?_eq_none.mp hfind b hb] at hfound
      | none => rwa [nameSame_of_keyText?_eq_none htext] at h

theorem distinctKeys_machineKey {m : Mapping} (hm : m.DistinctKeys) {k : Value}
    (hk : k.DistinctKeys) : (machineKey m k).DistinctKeys := by
  unfold machineKey
  cases hfind : m.find? fun b => sameMachine b.1 k with
  | some c => exact (hm.parts c (List.mem_of_find?_eq_some hfind)).1
  | none => exact hk

theorem distinctKeys_mergeMachine {m : Mapping} (hm : m.DistinctKeys) {e : Value × Value}
    (he : e.1.DistinctKeys ∧ e.2.DistinctKeys) : (mergeMachine m e).DistinctKeys := by
  rw [mergeMachine_eq m he.2]
  exact keyLocal_mergePart.distinctKeys hm ⟨distinctKeys_machineKey hm he.1, he.2⟩

theorem distinctKeys_mergeMachines {m new : Mapping} (hm : m.DistinctKeys)
    (hnew : new.DistinctKeys) : Mapping.DistinctKeys (new.foldl mergeMachine m) :=
  hm.foldl (fun hm he => distinctKeys_mergeMachine hm he) hnew

section MergeMachine

variable {m : Mapping} {e : Value × Value} (hm : m.DistinctKeys) (hn : NamedOnce m e.1)
  (he : e.1.DistinctKeys ∧ e.2.DistinctKeys) (hzero : isZeroKey e.1 = false)

include hm hn hzero

theorem find?_machineKey :
    (m.find? fun b => (machineKey m e.1).same b.1) = machine? m e.1 :=
  List.find?_congr fun _ hb => same_machineKey hm hn hzero hb

theorem storedKey_machineKey :
    Mapping.storedKey m (machineKey m e.1) = ((machine? m e.1).map (·.1)).getD e.1 := by
  unfold Mapping.storedKey
  rw [find?_machineKey hm hn hzero]
  cases hmachine : machine? m e.1 with
  | some b => rfl
  | none =>
      -- No machine of the base has the text of the key.
      have hfind : (m.find? fun b => sameMachine b.1 e.1) = none := by
        rw [List.find?_eq_none]
        intro b hb hsame
        obtain ⟨s, hbs, hes⟩ := sameMachine_iff.mp hsame
        exact List.find?_eq_none.mp hmachine b hb ((nameSame_of_keyText? hes).mpr hbs)
      simp [machineKey, hfind]

include he

theorem mem_mergeMachine_iff {b : Value × Value} :
    b ∈ mergeMachine m e ↔
      (b ∈ m ∧ nameSame e.1 b.1 = false) ∨ mergedMachine (machine? m e.1) e = some b := by
  have hkey := distinctKeys_machineKey hm he.1
  have hget : m.get? (machineKey m e.1) = (machine? m e.1).map (·.2) := by
    rw [Mapping.get?, find?_machineKey hm hn hzero]
  have hothers : (b ∈ m ∧ (machineKey m e.1).same b.1 = false) ↔
      (b ∈ m ∧ nameSame e.1 b.1 = false) :=
    and_congr_right fun hb => by rw [same_machineKey hm hn hzero hb]
  rw [mergeMachine_eq m he.2, mergePart, mergedMachine]
  have hpart : mergedPart (machineKey m e.1) (m.get? (machineKey m e.1)) e.2 =
      mergedPart e.1 ((machine? m e.1).map (·.2)) e.2 := by
    rw [hget]
    rfl
  rw [hpart]
  cases mergedPart e.1 ((machine? m e.1).map (·.2)) e.2 with
  | some v =>
      dsimp only
      rw [Mapping.mem_insert_iff hm hkey, hothers, storedKey_machineKey hm hn hzero,
        Option.map_some, Option.some.injEq, eq_comm (a := b)]
  | none =>
      dsimp only
      rw [Mapping.mem_remove_iff hm hkey, hothers]
      simp

/-- The entries of other machines stay, and no others come. -/
theorem mem_mergeMachine_of_nameSame_eq_false {b : Value × Value}
    (hb : nameSame e.1 b.1 = false) : b ∈ mergeMachine m e ↔ b ∈ m := by
  rw [mem_mergeMachine_iff hm hn he hzero]
  refine ⟨?_, fun h => .inl ⟨h, hb⟩⟩
  rintro (⟨h, -⟩ | h)
  · exact h
  · rw [nameSame_of_mergedMachine h] at hb
    cases hb

/-- Keys that name at most one machine still do so after a merge. -/
theorem namedOnce_mergeMachine {k : Value} (hk : k.DistinctKeys) (hnk : NamedOnce m k) :
    NamedOnce (mergeMachine m e) k := by
  -- The merged entry has another name than the entries that are left.
  have hdisjoint : ∀ a b : Value × Value, mergedMachine (machine? m e.1) e = some a →
      nameSame e.1 b.1 = false → nameSame k a.1 = true → ¬ nameSame k b.1 = true := by
    intro a b ha heb hka hkb
    have hak := nameSame_trans (nameSame_of_mergedMachine ha) (nameSame_symm hk hka)
    rw [nameSame_trans hak hkb] at heb
    cases heb
  intro a ha b hb hka hkb
  rcases (mem_mergeMachine_iff hm hn he hzero).mp ha with ⟨ha, hea⟩ | ha
  · rcases (mem_mergeMachine_iff hm hn he hzero).mp hb with ⟨hb, heb⟩ | hb
    · exact hnk a ha b hb hka hkb
    · exact absurd hka (hdisjoint b a hb hea hkb)
  · rcases (mem_mergeMachine_iff hm hn he hzero).mp hb with ⟨hb, heb⟩ | hb
    · exact absurd hkb (hdisjoint a b ha heb hka)
    · exact Option.some.inj (ha.symm.trans hb)

/-- A merge changes the named machine only. -/
theorem machine?_mergeMachine {k : Value} (hk : k.DistinctKeys) (hnk : NamedOnce m k) :
    machine? (mergeMachine m e) k =
      if nameSame k e.1 then mergedMachine (machine? m k) e else machine? m k := by
  have hnk' := namedOnce_mergeMachine hm hn he hzero hk hnk
  apply Option.ext
  intro b
  rw [machine?_eq_some_iff hnk', mem_mergeMachine_iff hm hn he hzero]
  by_cases hke : nameSame k e.1 = true
  · rw [if_pos hke, machine?_congr hk hke]
    constructor
    · rintro ⟨⟨-, heb⟩ | hb, hkb⟩
      · rw [nameSame_trans (nameSame_symm hk hke) hkb] at heb
        cases heb
      · exact hb
    · exact fun hb => ⟨.inr hb, nameSame_trans hke (nameSame_of_mergedMachine hb)⟩
  · rw [if_neg hke, machine?_eq_some_iff hnk]
    have hother : ∀ b : Value × Value, nameSame k b.1 = true → nameSame e.1 b.1 = false := by
      intro b hkb
      rw [Bool.eq_false_iff]
      exact fun heb => hke (nameSame_symm he.1 (nameSame_trans heb (nameSame_symm hk hkb)))
    constructor
    · rintro ⟨⟨hb, -⟩ | hb, hkb⟩
      · exact ⟨hb, hkb⟩
      · have hdiffer := hother b hkb
        rw [nameSame_of_mergedMachine hb] at hdiffer
        cases hdiffer
    · exact fun ⟨hb, hkb⟩ => ⟨.inl ⟨hb, hother b hkb⟩, hkb⟩

end MergeMachine

/-! ## Merging all machines -/

section MergeMachines

variable {m new : Mapping} (hm : m.DistinctKeys) (hnew : new.DistinctKeys)
  (hn : ∀ e ∈ new, NamedOnce m e.1) (hzero : ∀ e ∈ new, isZeroKey e.1 = false)

include hm hnew hn hzero

/-- The entries of an overlay are merged into the machines that they name. -/
theorem machine?_mergeMachines {k : Value} (hk : k.DistinctKeys) (hnk : NamedOnce m k) :
    NamedOnce (new.foldl mergeMachine m) k ∧ machine? (new.foldl mergeMachine m) k =
      (new.filter fun e => nameSame k e.1).foldl mergedMachine (machine? m k) := by
  induction new generalizing m with
  | nil => exact ⟨hnk, rfl⟩
  | cons e es ih =>
      obtain ⟨he, -, hes⟩ := Mapping.distinctKeys_cons_iff.mp hnew
      obtain ⟨hne, hnes⟩ := List.forall_mem_cons.mp hn
      obtain ⟨hze, hzes⟩ := List.forall_mem_cons.mp hzero
      have hnes' : ∀ f ∈ es, NamedOnce (mergeMachine m e) f.1 := fun f hf =>
        namedOnce_mergeMachine hm hne he hze (hes.parts f hf).1 (hnes f hf)
      obtain ⟨hnk', hfind⟩ := ih (distinctKeys_mergeMachine hm he) hes hnes' hzes
        (namedOnce_mergeMachine hm hne he hze hk hnk)
      refine ⟨hnk', ?_⟩
      rw [List.foldl_cons, hfind, machine?_mergeMachine hm hne he hze hk hnk, List.filter_cons]
      by_cases hke : nameSame k e.1 = true
      · rw [if_pos hke, if_pos hke, List.foldl_cons]
      · rw [if_neg hke, if_neg hke]

/-- Machines that an overlay does not name stay as they are. -/
theorem mem_mergeMachines_of_nameSame_eq_false {b : Value × Value}
    (hb : ∀ e ∈ new, nameSame e.1 b.1 = false) : b ∈ new.foldl mergeMachine m ↔ b ∈ m := by
  induction new generalizing m with
  | nil => exact Iff.rfl
  | cons e es ih =>
      obtain ⟨he, -, hes⟩ := Mapping.distinctKeys_cons_iff.mp hnew
      obtain ⟨hne, hnes⟩ := List.forall_mem_cons.mp hn
      obtain ⟨hze, hzes⟩ := List.forall_mem_cons.mp hzero
      obtain ⟨hbe, hbes⟩ := List.forall_mem_cons.mp hb
      have hnes' : ∀ f ∈ es, NamedOnce (mergeMachine m e) f.1 := fun f hf =>
        namedOnce_mergeMachine hm hne he hze (hes.parts f hf).1 (hnes f hf)
      rw [List.foldl_cons, ih (distinctKeys_mergeMachine hm he) hes hnes' hzes hbes,
        mem_mergeMachine_of_nameSame_eq_false hm hne he hze hbe]

end MergeMachines

end BundleCheck.Overlay
