import BundleCheck.Bundle.Decode
import BundleCheck.Proofs.Yaml.Reading

/-! # What decoding guarantees

Not every bundle is the result of decoding: numbers have a width, machine identifiers are not
blank, and no section that is kept has the name of one with a meaning of its own. Decoding
guarantees all of this. -/

namespace BundleCheck

open Yaml Yaml.Source

/-! ## Readable parts -/

/-- Whole option values have 64 bits with a sign. -/
def OptionValue.IsReadable : OptionValue → Prop
  | .int n => n < Text.wordSize 63
  | _ => True

def MachineId.IsReadable (id : MachineId) : Prop :=
  (Text.trim id.text.toList).isEmpty = false

def Machine.IsReadable (a : Machine) : Prop :=
  ∀ e ∈ a.annotations.entries, e.2.IsReadable

/-- The numbers of an application have the width that they are read with. -/
structure Application.IsReadable (a : Application) : Prop where
  revision : ∀ n, a.revision = some n → n < Text.wordSize 32
  numUnits : ∀ n, a.numUnits = some n → n < Text.wordSize 32
  options : ∀ e ∈ a.options.entries, e.2.IsReadable
  annotations : ∀ e ∈ a.annotations.entries, e.2.IsReadable

/-- The parts of a bundle are readable, and sections that are kept have names of their own and
hold no tags. -/
structure Bundle.HasReadableParts (b : Bundle) : Prop where
  machines : ∀ e ∈ b.machines.entries, e.1.IsReadable ∧ e.2.IsReadable
  applications : ∀ e ∈ b.applications.entries, e.2.IsReadable
  extra : ∀ e ∈ b.extra, BundleField.ofName? e.1 = none ∧ e.2.isUntagged = true

/-- Moreover no key comes twice in the sections that are kept. -/
structure Bundle.IsReadable (b : Bundle) : Prop extends b.HasReadableParts where
  distinct : b.sections.repeatedKey? = none

/-! ## Scalars and maps -/

theorem OptionValue.isReadable_of_read {v : Value} {x : OptionValue}
    (h : (OptionValue.read v : Except Mismatch OptionValue) = .ok x) : x.IsReadable := by
  rw [OptionValue.read, bind_eq_ok_iff] at h
  obtain ⟨c, -, h⟩ := h
  split at h
  · cases h
    trivial
  · split at h
    next hn =>
      cases h
      exact hn
    · cases h
  · cases h
    trivial
  · cases h
    trivial
  · cases h

theorem MachineId.isReadable_of_read {v : Value} {id : MachineId}
    (h : (MachineId.read v : Except Mismatch MachineId) = .ok id) : id.IsReadable := by
  rw [MachineId.read, bind_eq_ok_iff] at h
  obtain ⟨s, -, h⟩ := h
  split at h
  · cases h
  next hs =>
    cases h
    simpa [MachineId.IsReadable, MachineId.ofText, Text.trimmed, Text.trim_trim] using hs

theorem isReadable_of_natural32 {v : Value} {n : Nat} (h : v.natural32 = .ok n) :
    n < Text.wordSize 32 := by
  unfold Value.natural32 at h
  split at h
  · split at h
    next hn =>
      cases h
      simp only [Bool.and_eq_true, decide_eq_true_eq] at hn
      omega
    · cases h
  · cases h

/-- A part that may be null is absent or was read. -/
theorem optional_eq_ok {α : Type} {read : Value → Except Mismatch α} {collection v : Value}
    {x : Option α} (h : optional read collection v = .ok x) :
    x = none ∨ ∃ a, x = some a ∧ read v = .ok a := by
  rw [Source.optional, bind_eq_ok_iff] at h
  obtain ⟨part?, hpart, h⟩ := h
  cases part? with
  | none =>
      cases h
      exact .inl rfl
  | some part =>
      rw [bind_eq_ok_iff] at h
      obtain ⟨a, ha, h⟩ := h
      cases h
      have hv : part = v := by
        cases v with
        | null => cases hpart
        | _ => cases hpart; rfl
      exact .inr ⟨a, rfl, hv ▸ ha⟩

theorem isReadable_of_readAnnotations {collection v : Value} {m : SortedMap String OptionValue}
    (h : (readAnnotations collection v : Except Mismatch _) = .ok m) :
    ∀ e ∈ m.entries, e.2.IsReadable := by
  rw [readAnnotations, bind_eq_ok_iff] at h
  obtain ⟨x, hx, h⟩ := h
  cases h
  rcases optional_eq_ok hx with rfl | ⟨a, rfl, ha⟩
  · simp [SortedMap.empty]
  · rw [Source.map, bind_eq_ok_iff] at ha
    obtain ⟨es, -, ha⟩ := ha
    exact readMap_forall (fun _ _ => OptionValue.isReadable_of_read) (by simp [SortedMap.empty]) ha

/-- What holds of every entry that is read holds of all entries of a map with distinct keys. -/
theorem uniqueMap_forall_of_mem {κ α : Type} [Ord κ] [Std.TransOrd κ] {what : String}
    {keyText : κ → String} {readKey : Value → Except Mismatch κ}
    {readValue : Value → Value → Except Mismatch α} {P : κ × α → Prop} {part : Value}
    (hread : ∀ parts, part = .mapping parts → ∀ e ∈ parts, ∀ k v, readKey e.1 = .ok k →
      readValue part e.2 = .ok v → P (k, v))
    {m : SortedMap κ α} (h : uniqueMap what keyText readKey readValue part = .ok m) :
    ∀ e ∈ m.entries, P e := by
  rw [uniqueMap, bind_eq_ok_iff] at h
  obtain ⟨c, hc, h⟩ := h
  split at h
  · cases h
    simp [SortedMap.empty]
  next parts =>
    have hpart : part = .mapping parts := by
      cases part with
      | mapping entries => cases hc; rfl
      | number n => cases n <;> cases hc
      | _ => cases hc
    exact readUnique_forall_of_mem (hread parts hpart) (by simp [SortedMap.empty]) h
  · cases h

theorem uniqueMap_forall {κ α : Type} [Ord κ] [Std.TransOrd κ] {what : String}
    {keyText : κ → String} {readKey : Value → Except Mismatch κ}
    {readValue : Value → Value → Except Mismatch α} {P : κ × α → Prop}
    (hread : ∀ part (e : Value × Value) k v, readKey e.1 = .ok k → readValue part e.2 = .ok v →
      P (k, v))
    {part : Value} {m : SortedMap κ α}
    (h : uniqueMap what keyText readKey readValue part = .ok m) : ∀ e ∈ m.entries, P e :=
  uniqueMap_forall_of_mem (fun _ _ e _ => hread part e) h

/-- What holds of every value that is read holds of all options. -/
theorem readOptions_forall_of_mem {P : OptionValue → Prop} {v : Value}
    {m : SortedMap String OptionValue}
    (hread : ∀ parts, v = .mapping parts → ∀ e ∈ parts, ∀ x,
      (OptionValue.read e.2 : Except Mismatch OptionValue) = .ok x → P x)
    (h : (readOptions v : Except Mismatch _) = .ok m) : ∀ e ∈ m.entries, P e.2 := by
  rw [readOptions, bind_eq_ok_iff] at h
  obtain ⟨options, hoptions, h⟩ := h
  cases h
  have hall : ∀ e ∈ options.entries, ∀ x, e.2 = some x → P x := by
    refine uniqueMap_forall_of_mem (P := fun e => ∀ x, e.2 = some x → P x) ?_ hoptions
    intro parts hparts e he k v _ hv x hx
    rcases optional_eq_ok hv with h | ⟨a, ha, ha'⟩
    · rw [h] at hx
      cases hx
    · rw [ha] at hx
      cases hx
      exact hread parts hparts e he x ha'
  intro e he
  obtain ⟨f, hf, hfe⟩ := List.mem_filterMap.mp he
  obtain ⟨x, hx, rfl⟩ := Option.map_eq_some_iff.mp hfe
  exact hall f hf x hx

theorem isReadable_of_readOptions {v : Value} {m : SortedMap String OptionValue}
    (h : (readOptions v : Except Mismatch _) = .ok m) : ∀ e ∈ m.entries, e.2.IsReadable :=
  readOptions_forall_of_mem (fun _ _ _ _ _ => OptionValue.isReadable_of_read) h

/-! ## Machines and applications -/

theorem Machine.isReadable_of_read {v : Value} {a : Machine}
    (h : (Machine.read v : Except Mismatch Machine) = .ok a) : a.IsReadable := by
  rw [Machine.read, bind_eq_ok_iff] at h
  obtain ⟨es, -, h⟩ := h
  refine readEntries_preserves (P := Machine.IsReadable) ?_
    (by simp [IsReadable, SortedMap.empty]) h
  intro b b' field part hb hset
  cases field with
  | annotations =>
      rw [Machine.readField, bind_eq_ok_iff] at hset
      obtain ⟨m, hm, hset⟩ := hset
      cases hset
      exact isReadable_of_readAnnotations hm
  | _ =>
      rw [Machine.readField, bind_eq_ok_iff] at hset
      obtain ⟨x, -, hset⟩ := hset
      cases hset
      exact hb

/-- Every field keeps the numbers of an application in their width. -/
theorem Application.isReadable_readField {collection part : Value}
    {a a' : Option String × Application} {field : ApplicationField} (ha : a.2.IsReadable)
    (h : (Application.readField collection a field part : Except Mismatch _) = .ok a') :
    a'.2.IsReadable := by
  obtain ⟨charm, app⟩ := a
  have hnatural : ∀ x : Option Nat, optional natural32 collection part = .ok x →
      ∀ n, x = some n → n < Text.wordSize 32 := by
    rintro x hx n rfl
    rcases optional_eq_ok hx with h | ⟨k, hk, hread⟩
    · cases h
    · cases hk
      exact isReadable_of_natural32 hread
  cases field with
  | revision =>
      obtain ⟨x, hx, h⟩ := bind_eq_ok_iff.mp h
      cases h
      exact { ha with revision := hnatural x hx }
  | numUnits =>
      obtain ⟨x, hx, h⟩ := bind_eq_ok_iff.mp h
      cases h
      exact { ha with numUnits := hnatural x hx }
  | options =>
      obtain ⟨m, hm, h⟩ := bind_eq_ok_iff.mp h
      cases h
      exact { ha with options := isReadable_of_readOptions hm }
  | annotations =>
      obtain ⟨m, hm, h⟩ := bind_eq_ok_iff.mp h
      cases h
      exact { ha with annotations := isReadable_of_readAnnotations hm }
  | _ =>
      obtain ⟨x, -, h⟩ := bind_eq_ok_iff.mp h
      cases h
      exact ⟨ha.revision, ha.numUnits, ha.options, ha.annotations⟩

theorem Application.isReadable_of_read {v : Value} {a : Application}
    (h : (Application.read v : Except Mismatch Application) = .ok a) : a.IsReadable := by
  rw [Application.read, bind_eq_ok_iff] at h
  obtain ⟨es, -, h⟩ := h
  rw [bind_eq_ok_iff] at h
  obtain ⟨⟨charm?, app⟩, hentries, h⟩ := h
  have happ : app.IsReadable := by
    refine readEntries_preserves (P := fun a : Option String × Application => a.2.IsReadable)
      (fun b b' field part hb hset => Application.isReadable_readField hb hset) ?_ hentries
    constructor <;> simp [SortedMap.empty]
  cases charm? with
  | none => cases h
  | some charm =>
      cases h
      exact ⟨happ.revision, happ.numUnits, happ.options, happ.annotations⟩

/-! ## Bundles -/

theorem isReadable_of_readMachines {v : Value} {m : SortedMap MachineId Machine}
    (h : (readMachines v : Except Mismatch _) = .ok m) :
    ∀ e ∈ m.entries, e.1.IsReadable ∧ e.2.IsReadable := by
  rw [readMachines, bind_eq_ok_iff] at h
  obtain ⟨machines, hmachines, h⟩ := h
  cases h
  have hall : ∀ e ∈ machines.entries, e.1.IsReadable ∧ (e.2.getD {}).IsReadable := by
    refine uniqueMap_forall
      (P := fun e : MachineId × Option Machine => e.1.IsReadable ∧ (e.2.getD {}).IsReadable)
      ?_ hmachines
    intro part e k a? hk ha
    refine ⟨MachineId.isReadable_of_read hk, ?_⟩
    rcases optional_eq_ok ha with rfl | ⟨a, rfl, hread⟩
    · simp [Machine.IsReadable, SortedMap.empty]
    · exact Machine.isReadable_of_read hread
  intro e he
  obtain ⟨f, hf, hfe⟩ := List.mem_filterMap.mp he
  cases hfe
  exact hall f hf

theorem Bundle.hasReadableParts_readField {document part : Value} {b b' : Bundle}
    {field : BundleField} (hb : b.HasReadableParts)
    (h : (Bundle.readField document b field part : Except Mismatch Bundle) = .ok b') :
    b'.HasReadableParts := by
  cases field with
  | machines =>
      obtain ⟨m, hm, h⟩ := bind_eq_ok_iff.mp h
      cases h
      exact { hb with machines := isReadable_of_readMachines hm }
  | applications =>
      obtain ⟨m, hm, h⟩ := bind_eq_ok_iff.mp h
      cases h
      refine { hb with applications := ?_ }
      exact uniqueMap_forall (P := fun e : String × Application => e.2.IsReadable)
        (fun _ _ _ _ _ hread => Application.isReadable_of_read hread) hm
  | _ =>
      obtain ⟨x, -, h⟩ := bind_eq_ok_iff.mp h
      cases h
      exact ⟨hb.machines, hb.applications, hb.extra⟩

/-- What holds of an empty bundle and is kept by every section holds of the bundle. -/
theorem Bundle.readSections_preserves_of_mem {P : Bundle → Prop} {document : Value}
    {es : List (Value × Value)}
    (hextra : ∀ b name v, ∀ e ∈ es, BundleField.ofName? name = none →
      Source.sectionValue e.2 = Except.ok (ε := Mismatch) v → P b →
      P { b with extra := b.extra ++ [(name, v)] })
    (hfield : ∀ b b' name field, ∀ e ∈ es,
      Source.text "field identifier" e.1 = Except.ok (ε := Mismatch) name →
      BundleField.ofName? name = some field → P b →
      (Bundle.readField document b field e.2 : Except Mismatch Bundle) = .ok b' → P b')
    {seen : List BundleField} {b b' : Bundle} (hb : P b)
    (h : (Bundle.readSections document seen b es : Except Mismatch Bundle) = .ok b') : P b' := by
  induction es generalizing seen b with
  | nil =>
      cases h
      exact hb
  | cons e rest ih =>
      have hrest : ∀ {seen : List BundleField} {b : Bundle}, P b →
          (Bundle.readSections document seen b rest : Except Mismatch Bundle) = .ok b' → P b' :=
        ih (fun b name v f hf => hextra b name v f (by simp [hf]))
          fun b b' name field f hf => hfield b b' name field f (by simp [hf])
      rw [Bundle.readSections, bind_eq_ok_iff] at h
      obtain ⟨name, hname, h⟩ := h
      split at h
      next hknown =>
        obtain ⟨v, hv, h⟩ := bind_eq_ok_iff.mp h
        exact hrest (hextra b name v e (by simp) hknown hv hb) h
      next field hknown =>
        split at h
        · cases h
        · obtain ⟨c, hc, h⟩ := bind_eq_ok_iff.mp h
          exact hrest (hfield b c name field e (by simp) hname hknown hb hc) h

/-- What holds of an empty bundle and is kept by every section of a document holds of the bundle
that is decoded. -/
theorem Bundle.decode_preserves_of_mem {P : Bundle → Prop} {d : Value} {b : Bundle}
    (hempty : P {})
    (hextra : ∀ b name v, ∀ e ∈ d.entries?.getD [], BundleField.ofName? name = none →
      Source.sectionValue e.2 = Except.ok (ε := Mismatch) v → P b →
      P { b with extra := b.extra ++ [(name, v)] })
    (hfield : ∀ b b' name field, ∀ e ∈ d.entries?.getD [],
      Source.text "field identifier" e.1 = Except.ok (ε := Mismatch) name →
      BundleField.ofName? name = some field → P b →
      (Bundle.readField d b field e.2 : Except Mismatch Bundle) = .ok b' → P b')
    (h : Bundle.decode d = .ok b) : P b ∧ b.sections.repeatedKey? = none := by
  rw [Bundle.decode, Bundle.read, bind_eq_ok_iff] at h
  obtain ⟨es, hes, h⟩ := h
  obtain rfl := eq_getD_entries?_of_entries hes
  obtain ⟨c, hc, h⟩ := bind_eq_ok_iff.mp h
  have hparts : P c := Bundle.readSections_preserves_of_mem hextra hfield hempty hc
  split at h
  · cases h
  next hdistinct =>
    cases h
    exact ⟨hparts, hdistinct⟩

theorem isUntagged_of_sectionValue {v w : Value}
    (h : Source.sectionValue v = Except.ok (ε := Mismatch) w) : w.isUntagged = true := by
  change (if v.isUntagged then Except.ok v else .error Mismatch.taggedContent) = .ok w at h
  split at h
  · cases h
    assumption
  · cases h

/-- Decoding gives readable bundles only. -/
theorem Bundle.isReadable_of_decode {v : Value} {b : Bundle} (h : Bundle.decode v = .ok b) :
    b.IsReadable := by
  have hempty : ({} : Bundle).HasReadableParts := by
    constructor <;> simp [SortedMap.empty]
  have hextra : ∀ (b : Bundle) (name : String) (w : Value), BundleField.ofName? name = none →
      w.isUntagged = true → b.HasReadableParts →
      Bundle.HasReadableParts { b with extra := b.extra ++ [(name, w)] } := by
    intro b name w hname hw hb
    refine ⟨hb.machines, hb.applications, fun f hf => ?_⟩
    rcases List.mem_append.mp hf with hf | hf
    · exact hb.extra f hf
    · rw [List.mem_singleton.mp hf]
      exact ⟨hname, hw⟩
  obtain ⟨hparts, hdistinct⟩ := Bundle.decode_preserves_of_mem hempty
    (fun b name w e _ hname hw => hextra b name w hname (isUntagged_of_sectionValue hw))
    (fun b b' name field e _ _ _ hb hread => Bundle.hasReadableParts_readField hb hread) h
  exact ⟨hparts, hdistinct⟩

end BundleCheck
