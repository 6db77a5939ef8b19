import BundleCheck.Bundle.Decode
import BundleCheck.Proofs.Text
import BundleCheck.Proofs.Yaml.Records
import BundleCheck.Proofs.Yaml.Unique

/-! # The machines of a document

A key of the machines section is a whole number or a text, and what identifies the machine is its
trimmed text. The section is read exactly if no two keys identify one machine and every body is one
of a machine; nothing is lost then. -/

namespace BundleCheck

open Yaml Yaml.Source

/-! ## Keys and bodies -/

/-- The key is a whole number or a text that is not blank, which identifies a machine. -/
inductive Identifies : Value → MachineId → Prop
  | number (n : Int) : Identifies (.number (.int n)) (.ofText (toString n))
  | text {s : String} (h : Text.trim s.toList ≠ []) : Identifies (.string s) (.ofText s)

/-- The value is the body of a machine. A null is the body of one without settings. -/
inductive DescribesMachine : Value → Machine → Prop
  | null : DescribesMachine .null {}
  | read {v : Value} {a : Machine} (h : (Machine.read v : Except Mismatch Machine) = .ok a) :
      DescribesMachine v a

/-- Each key identifies a machine, and no two of them the same one. -/
def DistinctMachines (m : Mapping) : Prop :=
  ∃ ids, List.Forall₂ (fun e id => Identifies e.1 id) m ids ∧ ids.Nodup

theorem trim_toString (n : Int) : Text.trim (toString n).toList = (toString n).toList :=
  Text.trim_of_forall_eq_false fun _ => Text.isBlank_of_mem_toString

theorem Identifies.unique {k : Value} {id id' : MachineId} (h : Identifies k id)
    (h' : Identifies k id') : id = id' := by
  cases h <;> cases h' <;> rfl

theorem MachineId.read_eq_ok_iff {k : Value} {id : MachineId} :
    (MachineId.read k : Except Mismatch MachineId) = .ok id ↔ Identifies k id := by
  constructor
  · intro h
    rw [MachineId.read, bind_eq_ok_iff] at h
    obtain ⟨s, hs, h⟩ := h
    split at h
    · cases h
    next hblank =>
      cases h
      cases k with
      | string t =>
          cases hs
          exact .text (by simpa using hblank)
      | number n =>
          cases n with
          | int i =>
              cases hs
              exact .number i
          | float x => cases hs
      | _ => cases hs
  · intro h
    cases h with
    | number n =>
        change (if _ then _ else _) = _
        rw [if_neg]
        · rfl
        · have hne := Text.toString_toList_ne_nil n
          rw [← trim_toString] at hne
          simpa using hne
    | text h =>
        change (if _ then _ else _) = _
        rw [if_neg]
        · rfl
        · simpa using h

theorem optional_of_ne_null {α : Type} {read : Value → Except Mismatch α} {collection v : Value}
    (h : v ≠ .null) : optional read collection v = (read v).map some := by
  cases v with
  | null => exact absurd rfl h
  | _ => rfl

theorem optional_error {α : Type} {read : Value → Except Mismatch α} {collection v : Value}
    {cause : Mismatch} (h : optional read collection v = .error cause) : read v = .error cause := by
  by_cases hv : v = .null
  · subst hv
    cases h
  · rwa [optional_of_ne_null hv, map_eq_error_iff] at h

/-- The body that is read for a machine; a null stands for the default. -/
def readBody (v : Value) : Except Mismatch Machine :=
  (optional Machine.read Value.null v).map fun a? => a?.getD {}

theorem readBody_eq_ok_iff {v : Value} {a : Machine} :
    readBody v = .ok a ↔ DescribesMachine v a := by
  by_cases hv : v = .null
  · subst hv
    constructor
    · intro h
      cases h
      exact .null
    · intro h
      cases h with
      | null => rfl
      | read h =>
          cases h
          rfl
  · have hbody : readBody v = Machine.read v := by
      rw [readBody, optional_of_ne_null hv]
      cases (Machine.read v : Except Mismatch Machine) <;> rfl
    rw [hbody]
    constructor
    · exact .read
    · intro h
      cases h with
      | null => exact absurd rfl hv
      | read h => exact h

/-! ## Distinct machines -/

theorem distinctMachines_nil : DistinctMachines [] :=
  ⟨[], .nil, .nil⟩

/-- Machines are distinct if their keys identify machines and no two keys identify one. -/
theorem distinctMachines_iff {m : Mapping} :
    DistinctMachines m ↔ (∀ k ∈ m.map Prod.fst, ∃ id, Identifies k id) ∧
      (m.map Prod.fst).Pairwise fun j k => ∀ id, Identifies j id → ¬ Identifies k id := by
  induction m with
  | nil => exact iff_of_true distinctMachines_nil ⟨nofun, .nil⟩
  | cons e es ih =>
      rw [List.map_cons, List.forall_mem_cons, List.pairwise_cons]
      constructor
      · intro ⟨_, hids, hnodup⟩
        cases hids with
        | @cons _ id _ ids hid hids =>
            obtain ⟨hnew, hnodup⟩ := List.nodup_cons.mp hnodup
            obtain ⟨hall, hpairs⟩ := ih.mp ⟨ids, hids, hnodup⟩
            refine ⟨⟨⟨id, hid⟩, hall⟩, fun k hk j hj hkj => hnew ?_, hpairs⟩
            obtain ⟨b, hb, rfl⟩ := List.mem_map.mp hk
            obtain ⟨i, hi, hbi⟩ := exists_of_mem_right hids.flip hb
            rw [hid.unique hj, hkj.unique hbi]
            exact hi
      · intro ⟨⟨⟨id, hid⟩, hall⟩, hhead, hpairs⟩
        obtain ⟨ids, hids, hnodup⟩ := ih.mpr ⟨hall, hpairs⟩
        refine ⟨id :: ids, .cons hid hids, List.nodup_cons.mpr ⟨fun hmem => ?_, hnodup⟩⟩
        obtain ⟨b, hb, hbid⟩ := exists_of_mem_right hids hmem
        exact hhead b.1 (List.mem_map_of_mem hb) id hid hbid

theorem DistinctMachines.exists_identifies {m : Mapping} (h : DistinctMachines m)
    {b : Value × Value} (hb : b ∈ m) : ∃ id, Identifies b.1 id :=
  (distinctMachines_iff.mp h).1 b.1 (List.mem_map_of_mem hb)

/-! ## Reading the section -/

def GivesMachine (e : Value × Value) (d : MachineId × Machine) : Prop :=
  Identifies e.1 d.1 ∧ DescribesMachine e.2 d.2

theorem readMachines_mapping (raw : Mapping) :
    (readMachines (Value.mapping raw) : Except Mismatch (SortedMap MachineId Machine)) =
      readUnique "machine id" MachineId.text MachineId.read readBody (.mapping raw) .empty raw := by
  calc (readMachines (Value.mapping raw) : Except Mismatch (SortedMap MachineId Machine))
      = (readUnique "machine id" MachineId.text MachineId.read (optional Machine.read Value.null)
          (.mapping raw) .empty raw).map (fun m => m.map fun _ a? => a?.getD {}) := rfl
    _ = _ := readUnique_map _ _ _

theorem readsEntries_iff {raw : Mapping} {ds : List (MachineId × Machine)} :
    ReadsEntries MachineId.read readBody raw ds ↔ List.Forall₂ GivesMachine raw ds := by
  simp only [ReadsEntries, MachineId.read_eq_ok_iff, readBody_eq_ok_iff]
  rfl

/-- The section is read exactly if its entries give machines with different identifiers, which are
then the entries of the result. -/
theorem readMachines_eq_ok_iff {raw : Mapping} {m : SortedMap MachineId Machine} :
    (readMachines (Value.mapping raw) : Except Mismatch _) = .ok m ↔
      ∃ ds, List.Forall₂ GivesMachine raw ds ∧ (ds.map Prod.fst).Nodup ∧ m.entries.Perm ds := by
  rw [readMachines_mapping, readUnique_eq_ok_iff]
  simp only [readsEntries_iff]
  rfl

/-- Keys and bodies that are read one by one are read together. -/
theorem exists_givesMachine {raw : Mapping} {ids : List MachineId}
    (hids : List.Forall₂ (fun e id => Identifies e.1 id) raw ids)
    (hbodies : ∀ e ∈ raw, ∃ a, DescribesMachine e.2 a) :
    ∃ ds, List.Forall₂ GivesMachine raw ds ∧ ds.map Prod.fst = ids := by
  induction hids with
  | nil => exact ⟨[], .nil, rfl⟩
  | @cons e id es ids hid _ ih =>
      rw [List.forall_mem_cons] at hbodies
      obtain ⟨⟨a, ha⟩, hbodies⟩ := hbodies
      obtain ⟨ds, hds, hfst⟩ := ih hbodies
      exact ⟨(id, a) :: ds, .cons ⟨hid, ha⟩ hds, by rw [List.map_cons, hfst]⟩

theorem identifies_of_givesMachine {raw : Mapping} {ds : List (MachineId × Machine)}
    (h : List.Forall₂ GivesMachine raw ds) :
    List.Forall₂ (fun e id => Identifies e.1 id) raw (ds.map Prod.fst) := by
  rw [List.forall₂_map_right_iff]
  exact h.imp fun _ _ hgives => hgives.1

theorem exists_readMachines_iff {raw : Mapping} :
    (∃ m, (readMachines (Value.mapping raw) : Except Mismatch _) = .ok m) ↔
      DistinctMachines raw ∧ ∀ e ∈ raw, ∃ a, DescribesMachine e.2 a := by
  simp only [readMachines_eq_ok_iff]
  constructor
  · intro ⟨m, ds, hds, hnodup, _⟩
    refine ⟨⟨ds.map Prod.fst, identifies_of_givesMachine hds, hnodup⟩, fun e he => ?_⟩
    obtain ⟨d, -, hgives⟩ := exists_of_mem_right hds.flip he
    exact ⟨d.2, hgives.2⟩
  · intro ⟨⟨ids, hids, hnodup⟩, hbodies⟩
    obtain ⟨ds, hds, rfl⟩ := exists_givesMachine hids hbodies
    obtain ⟨m, hm⟩ := exists_perm_entries hnodup
    exact ⟨m, ds, hds, hnodup, hm⟩

/-- If two identifiers coincide, the first that came before is reported. -/
theorem readMachines_of_repeated {raw : Mapping} {before after : List MachineId} {id : MachineId}
    (hids : List.Forall₂ (fun e id => Identifies e.1 id) raw (before ++ id :: after))
    (hbodies : ∀ e ∈ raw, ∃ a, DescribesMachine e.2 a) (hbefore : before.Nodup)
    (hmem : id ∈ before) :
    (readMachines (Value.mapping raw) : Except Mismatch _) =
      .error (.duplicateKey "machine id" id.text) := by
  obtain ⟨ds, hds, hfst⟩ := exists_givesMachine hids hbodies
  obtain ⟨front, back, rfl, rfl, hback⟩ := List.map_eq_append_iff.mp hfst
  obtain ⟨d, back, rfl, rfl, rfl⟩ := List.map_eq_cons_iff.mp hback
  have hfront := List.forall₂_take_append raw front (d :: back) hds
  obtain ⟨e, rest, he, -, hdrop⟩ :=
    List.forall₂_cons_right_iff.mp (List.forall₂_drop_append raw front (d :: back) hds)
  rw [readMachines_mapping, ← List.take_append_drop front.length raw, hdrop]
  exact readUnique_of_repeated (readsEntries_iff.mpr hfront) hbefore
    (MachineId.read_eq_ok_iff.mpr he.1) hmem

/-! ## What a section fails by -/

/-- The mismatch is not about a key that comes twice in a map. -/
def NoRepeatedKey (cause : Mismatch) : Prop :=
  ∀ what key, cause ≠ .duplicateKey what key

theorem noRepeatedKey_invalidType (found : Found) (expected : String) :
    NoRepeatedKey (.invalidType found expected) :=
  fun _ _ => nofun

theorem OptionValue.read_error {v : Value} {cause : Mismatch}
    (h : (OptionValue.read v : Except Mismatch OptionValue) = .error cause) :
    NoRepeatedKey cause := by
  rw [OptionValue.read, bind_eq_error_iff] at h
  rcases h with h | ⟨c, -, h⟩
  · cases h
  · split at h
    · cases h
    · split at h
      · cases h
      · cases h
        exact fun _ _ => nofun
    · cases h
    · cases h
    · cases h
      exact noRepeatedKey_invalidType _ _

theorem readOptionalText_error {collection v : Value} {cause : Mismatch}
    (h : readOptionalText collection v = .error cause) : NoRepeatedKey cause :=
  text_error noRepeatedKey_invalidType (optional_error h)

theorem readAnnotations_error {collection v : Value} {cause : Mismatch}
    (h : readAnnotations collection v = .error cause) : NoRepeatedKey cause := by
  rw [readAnnotations, bind_eq_error_iff] at h
  rcases h with h | ⟨a?, -, h⟩
  · exact map_error noRepeatedKey_invalidType (fun _ _ => OptionValue.read_error)
      (optional_error h)
  · cases h

theorem Machine.readField_error {v part : Value} {a : Machine} {field : MachineField}
    {cause : Mismatch} (h : Machine.readField v a field part = .error cause) :
    NoRepeatedKey cause := by
  cases field with
  | annotations =>
      rw [Machine.readField, bind_eq_error_iff] at h
      rcases h with h | ⟨x, -, h⟩
      · exact readAnnotations_error h
      · cases h
  | _ =>
      rw [Machine.readField, bind_eq_error_iff] at h
      rcases h with h | ⟨x, -, h⟩
      · exact readOptionalText_error h
      · cases h

/-- The body of a machine has no map whose keys may not come twice. -/
theorem readBody_error {v : Value} {cause : Mismatch} (h : readBody v = .error cause) :
    NoRepeatedKey cause := by
  rw [readBody, map_eq_error_iff] at h
  have hread := optional_error h
  rw [Machine.read, bind_eq_error_iff] at hread
  rcases hread with h | ⟨es, -, h⟩
  · exact entries_error noRepeatedKey_invalidType h
  · exact readEntries_error noRepeatedKey_invalidType (fun _ _ _ => nofun)
      (fun _ _ _ _ => Machine.readField_error) h

/-- A section whose keys identify different machines never fails by a repeated identifier. -/
theorem readMachines_ne_duplicateKey {v : Value} {raw : Mapping} (hv : v.entries? = some raw)
    (hdistinct : DistinctMachines raw) (what key : String) :
    (readMachines v : Except Mismatch _) ≠ .error (.duplicateKey what key) := by
  cases v with
  | mapping entries =>
      cases hv
      intro h
      rw [readMachines_mapping] at h
      obtain ⟨ids, hids, hnodup⟩ := hdistinct
      simp only [← MachineId.read_eq_ok_iff] at hids
      have hkeys : ((SortedMap.empty : SortedMap MachineId Machine).entries.map Prod.fst ++
          ids).Nodup := hnodup
      obtain ⟨e, -, hbody⟩ := readUnique_error_of_nodup hids hkeys h
      exact readBody_error hbody what key rfl
  | tagged tag v => exact nofun
  | _ => cases hv

/-! ## The machines of a mapping -/

/-- The machines of a mapping are read exactly if every key is a whole number or a text that is not
blank, their trimmed texts are pairwise different, and every body is null or one of a machine. Each
entry then gives one machine, under its trimmed text and with its body, and there are no others. If
all entries can be read but two of the texts coincide, the first that came before is reported. -/
theorem readMachines_distinct (raw : Mapping) :
    ((∃ m, (readMachines (Value.mapping raw) : Except Mismatch _) = .ok m) ↔
        DistinctMachines raw ∧ ∀ e ∈ raw, ∃ a, DescribesMachine e.2 a) ∧
      (∀ m, (readMachines (Value.mapping raw) : Except Mismatch _) = .ok m →
        ∃ ds, List.Forall₂ GivesMachine raw ds ∧ m.entries.Perm ds) ∧
      ∀ ids, List.Forall₂ (fun e id => Identifies e.1 id) raw ids →
        (∀ e ∈ raw, ∃ a, DescribesMachine e.2 a) → ¬ ids.Nodup →
        ∃ before id after, ids = before ++ id :: after ∧ before.Nodup ∧ id ∈ before ∧
          ∃ cause, (readMachines (Value.mapping raw) : Except Mismatch _) = .error cause ∧
            cause.message = s!"duplicate machine id '{id.text}'" := by
  refine ⟨exists_readMachines_iff, fun m hm => ?_, fun ids hids hbodies hrepeated => ?_⟩
  · obtain ⟨ds, hds, -, hperm⟩ := readMachines_eq_ok_iff.mp hm
    exact ⟨ds, hds, hperm⟩
  · obtain ⟨before, id, after, rfl, hbefore, hmem⟩ := exists_first_repeated hrepeated
    exact ⟨before, id, after, rfl, hbefore, hmem, _,
      readMachines_of_repeated hids hbodies hbefore hmem, rfl⟩

/-- A number without a body, and a text with blanks around it. -/
theorem readMachines_distinct_spelled :
    ∃ m, (readMachines (Value.mapping [(.number (.int 0), .null), (.string " web ", .mapping [])]) :
      Except Mismatch _) = .ok m := by
  refine (readMachines_distinct _).1.mpr ⟨⟨[.ofText "0", .ofText " web "], ?_, by decide⟩, ?_⟩
  · exact .cons (.number 0) (.cons (.text (by decide)) .nil)
  · intro e he
    rcases List.mem_pair.mp he with rfl | rfl
    · exact ⟨{}, .null⟩
    · exact ⟨{}, .read rfl⟩

end BundleCheck
