import BundleCheck.Proofs.Bundle.Machines
import BundleCheck.Proofs.Overlay.Machines

/-! # Machines of an overlay

An entry of an overlay is merged into the machine that its key identifies, and into no other, be the
keys numbers or texts. Keys that identify different machines still do so after each merge, so that
an overlay never makes a section whose machines cannot be told apart. -/

namespace BundleCheck

open Yaml

/-! ## Keys that identify machines -/

theorem Identifies.keyText? {k : Value} {id : MachineId} (h : Identifies k id) :
    Overlay.keyText? k = some id.text.toList := by
  cases h with
  | number n =>
      have htext : (MachineId.ofText (toString n)).text.toList = (toString n).toList := by
        simpa [MachineId.ofText, Text.trimmed] using trim_toString n
      rw [htext]
      rfl
  | text _ => simp [Overlay.keyText?, MachineId.ofText, Text.trimmed]

theorem Identifies.isZeroKey {k : Value} {id : MachineId} (h : Identifies k id) :
    Overlay.isZeroKey k = false := by
  cases h <;> rfl

namespace Overlay

/-- Keys name one machine exactly if they identify it. -/
theorem sameMachine_iff_of_identifies {j k : Value} {id id' : MachineId} (hj : Identifies j id)
    (hk : Identifies k id') : sameMachine j k = true ↔ id = id' := by
  rw [sameMachine_iff, hj.keyText?, hk.keyText?]
  constructor
  · intro ⟨s, hs, hs'⟩
    exact MachineId.ext (String.toList_inj.mp (Option.some.inj (hs.trans hs'.symm)))
  · intro h
    exact ⟨_, rfl, by rw [h]⟩

/-- The same key identifies the same machine. -/
theorem eq_of_same_of_identifies {j k : Value} {id id' : MachineId} (hj : Identifies j id)
    (hk : Identifies k id') (h : j.same k = true) : id = id' := by
  have htext := keyText?_eq_of_same hj.isZeroKey h
  exact (sameMachine_iff_of_identifies hj hk).mp
    (sameMachine_iff.mpr ⟨_, hj.keyText?, htext ▸ hj.keyText?⟩)

/-! ## What one entry does -/

/-- What a machine becomes: fields are merged into fields, and other values replace it. -/
def overlaid : Value → Value → Value
  | .mapping existing, .mapping fields => .mapping (mergeFields existing fields)
  | _, new => new

/-- What an entry whose key identifies a machine makes of the machines of a section. The key that is
there is kept; only where a machine is removed may another one take its place. -/
inductive MergesAt (id : MachineId) (e : Value × Value) : Mapping → Mapping → Prop
  | removes {before after merged : Mapping} {k v : Value} (hkey : Identifies k id)
      (hnull : e.2 = .null) (hmerged : merged.Perm (before ++ after)) :
      MergesAt id e (before ++ (k, v) :: after) merged
  | changes {before after : Mapping} {k v : Value} (hkey : Identifies k id)
      (hvalue : e.2 ≠ .null) :
      MergesAt id e (before ++ (k, v) :: after) (before ++ (k, overlaid v e.2) :: after)
  | adds {base : Mapping} (hnew : ∀ b ∈ base, ¬ Identifies b.1 id) (hvalue : e.2 ≠ .null) :
      MergesAt id e base (base ++ [e])
  | passes {base : Mapping} (hnew : ∀ b ∈ base, ¬ Identifies b.1 id) (hnull : e.2 = .null) :
      MergesAt id e base base

section MergeMachine

variable {base merged : Mapping} {e : Value × Value} {id : MachineId}

/-- Machines that are distinct stay so: a key that comes new identifies none that is there. -/
theorem MergesAt.distinctMachines (h : MergesAt id e base merged) (he : Identifies e.1 id)
    (hbase : DistinctMachines base) : DistinctMachines merged := by
  rw [distinctMachines_iff] at hbase ⊢
  obtain ⟨hall, hpairs⟩ := hbase
  cases h with
  | @removes before after merged k v hkey hnull hmerged =>
      have hkeys := hmerged.map Prod.fst
      have hsub : ((before ++ after).map Prod.fst).Sublist
          ((before ++ (k, v) :: after).map Prod.fst) := by simp
      refine ⟨fun j hj => hall j (hsub.subset (hkeys.mem_iff.mp hj)), ?_⟩
      exact (hpairs.sublist hsub).perm hkeys.symm fun hij id hi hj => hij id hj hi
  | @changes before after k v hkey hvalue =>
      have hkeys : (before ++ (k, overlaid v e.2) :: after).map Prod.fst =
          (before ++ (k, v) :: after).map Prod.fst := by simp
      rw [hkeys]
      exact ⟨hall, hpairs⟩
  | adds hnew hvalue =>
      rw [List.map_append, List.forall_mem_append, List.pairwise_append]
      refine ⟨⟨hall, fun k hk => ⟨id, ?_⟩⟩, hpairs, List.pairwise_singleton .., ?_⟩
      · rw [List.mem_singleton.mp hk]
        exact he
      · intro j hj k hk id' hj' hk'
        obtain ⟨b, hb, rfl⟩ := List.mem_map.mp hj
        rw [List.mem_singleton.mp hk] at hk'
        rw [hk'.unique he] at hj'
        exact hnew b hb hj'
  | passes hnew hnull => exact ⟨hall, hpairs⟩

theorem mergeMachine_of_eq_null (h : e.2 = .null) :
    mergeMachine base e = base.remove (machineKey base e.1) := by
  simp only [mergeMachine, h, machineKey]

theorem overlaid_of_ne_mapping {v new : Value} (h : ∀ fields, new ≠ .mapping fields) :
    overlaid v new = new := by
  unfold overlaid
  split
  · exact absurd rfl (h _)
  · rfl

theorem mergeMachine_of_ne_null (h : e.2 ≠ .null) :
    mergeMachine base e = base.insert (machineKey base e.1)
      ((base.get? (machineKey base e.1)).elim e.2 fun v => overlaid v e.2) := by
  obtain ⟨k, new⟩ := e
  cases new with
  | null => exact absurd rfl h
  | mapping fields =>
      unfold mergeMachine
      dsimp only
      rw [← machineKey]
      cases base.get? (machineKey base k) with
      | none => rfl
      | some v => cases v <;> rfl
  | _ =>
      cases hget : base.get? (machineKey base k) with
      | none => rfl
      | some v =>
          rw [Option.elim_some, overlaid_of_ne_mapping (by simp)]
          rfl

/-- A key that identifies no machine of the section is none of its keys. -/
theorem get?_eq_none_of_identifies (hbase : DistinctMachines base) (he : Identifies e.1 id)
    (hnew : ∀ b ∈ base, ¬ Identifies b.1 id) : base.get? e.1 = none := by
  rw [Mapping.get?_eq_none_iff]
  intro b hb
  obtain ⟨id', hid'⟩ := hbase.exists_identifies hb
  rw [Bool.eq_false_iff]
  intro hsame
  rw [← eq_of_same_of_identifies he hid' hsame] at hid'
  exact hnew b hb hid'

/-- An entry is merged into the machine that its key identifies. -/
theorem mergesAt_mergeMachine (hbase : DistinctMachines base) (he : Identifies e.1 id) :
    MergesAt id e base (mergeMachine base e) := by
  have hsame : ∀ b ∈ base, sameMachine b.1 e.1 = true ↔ Identifies b.1 id := by
    intro b hb
    obtain ⟨id', hid'⟩ := hbase.exists_identifies hb
    rw [sameMachine_iff_of_identifies hid' he]
    exact ⟨fun h => h ▸ hid', fun h => hid'.unique h⟩
  cases hfind : base.find? fun b => sameMachine b.1 e.1 with
  | none =>
      have hnew : ∀ b ∈ base, ¬ Identifies b.1 id := by
        intro b hb
        rw [← hsame b hb]
        exact List.find?_eq_none.mp hfind b hb
      have hkey : machineKey base e.1 = e.1 := by rw [machineKey, hfind]; rfl
      have hget := get?_eq_none_of_identifies hbase he hnew
      by_cases hnull : e.2 = .null
      · rw [mergeMachine_of_eq_null hnull, hkey, Mapping.remove_of_get?_eq_none hget]
        exact .passes hnew hnull
      · rw [mergeMachine_of_ne_null hnull, hkey, hget, Mapping.insert_of_get?_eq_none hget]
        exact .adds hnew hnull
  | some b =>
      obtain ⟨hb, before, after, rfl, hbefore⟩ := List.find?_eq_some_iff_append.mp hfind
      have hkey : machineKey (before ++ b :: after) e.1 = b.1 := by rw [machineKey, hfind]; rfl
      have hid := (hsame b (by simp)).mp hb
      -- The key that is found is not the key of an entry before it, which would have been found.
      have hfront : ∀ c ∈ before, b.1.same c.1 = false := by
        intro c hc
        obtain ⟨id', hid'⟩ := hbase.exists_identifies (b := c) (by simp [hc])
        rw [Bool.eq_false_iff]
        intro hsamekey
        have hc' := hbefore c hc
        rw [← eq_of_same_of_identifies hid hid' hsamekey] at hid'
        rw [(hsame c (by simp [hc])).mpr hid'] at hc'
        cases hc'
      by_cases hnull : e.2 = .null
      · rw [mergeMachine_of_eq_null hnull, hkey]
        exact .removes hid hnull (Mapping.remove_append_cons_perm hfront (Value.same_refl b.1))
      · rw [mergeMachine_of_ne_null hnull, hkey,
          Mapping.get?_append_cons hfront (Value.same_refl b.1),
          Mapping.insert_append_cons hfront (Value.same_refl b.1)]
        exact .changes hid hnull

end MergeMachine

/-! ## Merging all entries -/

/-- The entries of an overlay are merged one after the other, and the machines stay distinct. -/
inductive MergesInOrder : Mapping → Mapping → Mapping → Prop
  | nil (base : Mapping) : MergesInOrder base [] base
  | cons {base next merged es : Mapping} {e : Value × Value} {id : MachineId}
      (hid : Identifies e.1 id) (hstep : MergesAt id e base next)
      (hdistinct : DistinctMachines next) (hrest : MergesInOrder next es merged) :
      MergesInOrder base (e :: es) merged

theorem mergesInOrder_foldl {base new : Mapping} (hbase : DistinctMachines base)
    (hnew : ∀ e ∈ new, ∃ id, Identifies e.1 id) :
    MergesInOrder base new (new.foldl mergeMachine base) := by
  induction new generalizing base with
  | nil => exact .nil base
  | cons e es ih =>
      obtain ⟨⟨id, hid⟩, hes⟩ := List.forall_mem_cons.mp hnew
      have hstep := mergesAt_mergeMachine hbase hid
      have hnext := hstep.distinctMachines hid hbase
      exact .cons hid hstep hnext (ih hnext hes)

theorem MergesInOrder.distinctMachines {base new merged : Mapping}
    (h : MergesInOrder base new merged) (hbase : DistinctMachines base) :
    DistinctMachines merged := by
  induction h with
  | nil => exact hbase
  | cons _ _ hdistinct _ ih => exact ih hdistinct

/-- Let the keys of a section identify different machines, and each key of an overlay some machine.
Then the overlay is merged. Each of its entries is merged into, replaces or removes the machine that
its key identifies, however the keys are written, and is added exactly if there is none. After each
entry the keys of the section identify different machines again, so that reading the result never
reports a repeated identifier. -/
theorem mergeMachines_identified (origin : String) {root base new : Mapping}
    (hsection : (sectionOf root "machines").entries? = some base)
    (hbase : DistinctMachines base) (hnew : ∀ e ∈ new, ∃ id, Identifies e.1 id) :
    ∃ root' machines merged, mergeMachines origin root (.mapping new) = .ok root' ∧
      root'.getName? "machines" = some machines ∧ machines.entries? = some merged ∧
      MergesInOrder base new merged ∧ DistinctMachines merged ∧
      ∀ what key,
        (readMachines machines : Except Mismatch _) ≠ .error (.duplicateKey what key) := by
  have hmerges := mergesInOrder_foldl hbase hnew
  have hdistinct := hmerges.distinctMachines hbase
  have hentries := entries?_withEntries (sectionOf root "machines") (new.foldl mergeMachine base)
  refine ⟨_, _, _, ?_, root.get?_insert_self (Value.distinctKeys_string _) _, hentries, hmerges,
    hdistinct, readMachines_ne_duplicateKey hentries hdistinct⟩
  simp only [mergeMachines, hsection]

/-- One machine is written as a number and as a text; another comes and goes under two texts. -/
theorem mergeMachines_identified_spelled :
    ∃ merged, MergesInOrder [(.number (.int 0), .mapping []), (.string " web ", .null)]
        [(.string "0", .null), (.number (.int 1), .mapping []), (.string "1 ", .null)] merged ∧
      DistinctMachines merged := by
  have hsection : (sectionOf [(.string "machines",
      .mapping [(.number (.int 0), .mapping []), (.string " web ", .null)])] "machines").entries? =
      some [(.number (.int 0), .mapping []), (.string " web ", .null)] := rfl
  have hbase : DistinctMachines [(.number (.int 0), .mapping []), (.string " web ", .null)] :=
    ⟨[.ofText "0", .ofText " web "], .cons (.number 0) (.cons (.text (by decide)) .nil),
      by decide⟩
  have hnew : ∀ e ∈ ([(.string "0", .null), (.number (.int 1), .mapping []),
      (.string "1 ", .null)] : Mapping), ∃ id, Identifies e.1 id := by
    intro e he
    simp only [List.mem_cons, List.not_mem_nil, or_false] at he
    rcases he with rfl | rfl | rfl
    · exact ⟨_, .text (by decide)⟩
    · exact ⟨_, .number 1⟩
    · exact ⟨_, .text (by decide)⟩
  obtain ⟨_, _, merged, -, -, -, hmerges, hdistinct, -⟩ :=
    mergeMachines_identified "" hsection hbase hnew
  exact ⟨merged, hmerges, hdistinct⟩

end Overlay

end BundleCheck
