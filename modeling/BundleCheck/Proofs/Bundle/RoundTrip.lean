import BundleCheck.Bundle.Encode
import BundleCheck.Proofs.Bundle.Readable
import BundleCheck.Proofs.Relation

/-! # Decoding what was encoded

A record is written as those of its fields that are not empty, in a fixed order. Reading sets
exactly these fields and leaves the others at their default, so that every readable bundle
comes back. -/

namespace BundleCheck

open Yaml Yaml.Source

/-! ## Scalars -/

/-- What is read from a value other than null is present. -/
theorem optional_of_read {α : Type} {read : Value → Except Mismatch α} {v : Value} {x : α}
    (h : read v = .ok x) (hv : v ≠ .null) (collection : Value) :
    Source.optional read collection v = .ok (some x) := by
  have hopt : Source.optional read collection v = read v >>= fun x => pure (some x) := by
    cases v with
    | null => exact absurd rfl hv
    | _ => rfl
  rw [hopt, h]
  rfl

theorem OptionValue.encode_ne_null (x : OptionValue) : x.encode ≠ .null := by
  cases x <;> simp [OptionValue.encode]

theorem OptionValue.read_encode {x : OptionValue} (hx : x.IsReadable) :
    (OptionValue.read x.encode : Except Mismatch OptionValue) = .ok x := by
  cases x with
  | int n =>
      change (if n < Text.wordSize 63 then Except.ok (OptionValue.int n) else _) = _
      exact if_pos hx
  | _ => rfl

theorem MachineId.read_text {id : MachineId} (h : id.IsReadable) :
    (MachineId.read (Value.string id.text) : Except Mismatch MachineId) = .ok id := by
  change (if (Text.trim id.text.toList).isEmpty then _
    else Except.ok (MachineId.ofText id.text)) = _
  rw [h]
  simp only [Bool.false_eq_true, if_false, Except.ok.injEq]
  exact MachineId.ext id.trimmed_text

theorem natural32_int {n : Nat} (h : n < Text.wordSize 32) :
    (Value.number (.int n)).natural32 = .ok n := by
  have hn : (n : Int) < Text.wordSize 32 := by omega
  simp [Value.natural32, Value.untagged, hn]

/-! ## Collections -/

theorem readOptions_encodeOptions {m : SortedMap String OptionValue}
    (hm : ∀ e ∈ m.entries, e.2.IsReadable) :
    (readOptions (Value.mapping (encodeOptions m)) : Except Mismatch _) = .ok m := by
  obtain ⟨done, hread, hentries⟩ := uniqueMap_entries "option" id (text "a string")
    (Source.optional OptionValue.read) .string OptionValue.encode some m (fun _ _ => rfl)
    fun e he => optional_of_read (OptionValue.read_encode (hm e he)) e.2.encode_ne_null
  have hmap : (uniqueMap "option" id (text "a string") (Source.optional OptionValue.read)
      (Value.mapping (encodeOptions m)) : Except Mismatch _) = .ok done := hread
  rw [readOptions, hmap]
  change Except.ok _ = _
  rw [Except.ok.injEq]
  ext1
  simp [SortedMap.filterMap, hentries, List.filterMap_map]

theorem map_entries {β : Type} {readValue : Value → Except Mismatch β} {writeValue : β → Value}
    {m : SortedMap String β} (hvalue : ∀ e ∈ m.entries, readValue (writeValue e.2) = .ok e.2) :
    Source.map readValue (Value.mapping (m.entries.map fun e => entry e.1 (writeValue e.2))) =
      Except.ok m := by
  have hsorted : ((SortedMap.empty : SortedMap String β).entries ++ m.entries).Pairwise
      fun a b => compare a.1 b.1 = .lt := by
    simpa [SortedMap.empty] using m.sorted
  obtain ⟨done, hread, hentries⟩ := readMap_entries hvalue hsorted
  have hdone : done = m := SortedMap.ext (by simpa [SortedMap.empty] using hentries)
  exact hdone ▸ hread

theorem readAnnotations_encodeOptions {m : SortedMap String OptionValue}
    (hm : ∀ e ∈ m.entries, e.2.IsReadable) (collection : Value) :
    (readAnnotations collection (Value.mapping (encodeOptions m)) : Except Mismatch _) = .ok m := by
  have hmap : Source.map OptionValue.read (Value.mapping (encodeOptions m)) = Except.ok m :=
    map_entries fun e he => OptionValue.read_encode (hm e he)
  rw [readAnnotations, optional_of_read hmap (by simp)]
  rfl

theorem readBindings_entries (m : SortedMap String String) (collection : Value) :
    (readBindings collection (Value.mapping (m.entries.map fun e => entry e.1 (.string e.2))) :
      Except Mismatch _) = .ok m := by
  have hmap : Source.map (text "a string")
      (Value.mapping (m.entries.map fun e => entry e.1 (.string e.2))) = Except.ok m :=
    map_entries fun _ _ => rfl
  rw [readBindings, optional_of_read hmap (by simp)]
  rfl

theorem readPlacements_strings (directives : List String) :
    (readPlacements (Value.sequence (directives.map .string)) : Except Mismatch _) =
      .ok directives :=
  mapM_ok fun _ _ => rfl

/-! ## Fields that may be left out -/

/-- A field that is left out only at its default, and is read back otherwise. -/
structure ReadsBack {α : Type} (read : Value → Except Mismatch α) (default x : α)
    (written? : Option Value) : Prop where
  read_eq : ∀ v, written? = some v → read v = .ok x
  eq_default : written? = none → x = default

/-- Reading the field of a record that has the default there gives what was written. -/
theorem ReadsBack.elim_eq {α β : Type} {read : Value → Except Mismatch α} {default x : α}
    {written? : Option Value} (h : ReadsBack read default x written?) (set : α → β) {b : β}
    (hb : set default = b) :
    written?.elim (.ok b) (fun v => do return set (← read v)) = Except.ok (set x) := by
  cases hv : written? with
  | none =>
      rw [h.eq_default hv, hb]
      rfl
  | some v =>
      rw [Option.elim_some, h.read_eq v hv]
      rfl

/-- Steps that each take one field over, the others being at their default, take over all. -/
theorem foldlM_take {φ β : Type} {take : β → β → φ → β} {step : β → φ → Except Mismatch β}
    {a default : β} (hstep : ∀ b f, take default b f = b → step b f = .ok (take a b f))
    (hcomm : ∀ b f g, f ≠ g → take default (take a b g) f = take a (take default b f) g)
    (fields : List φ) (hnodup : fields.Nodup) {b : β}
    (hb : ∀ f ∈ fields, take default b f = b) :
    fields.foldlM step b = .ok (fields.foldl (take a) b) := by
  induction fields generalizing b with
  | nil => rfl
  | cons field fields ih =>
      obtain ⟨hfield, hnodup⟩ := List.nodup_cons.mp hnodup
      rw [List.foldlM_cons, hstep b field (hb field (by simp))]
      refine ih hnodup fun f hf => ?_
      have hne : f ≠ field := fun he => hfield (he ▸ hf)
      rw [hcomm b f field hne, hb f (by simp [hf])]

def nonEmpty? {α : Type} (xs : List α) : Option (List α) :=
  if xs.isEmpty then none else some xs

theorem nonEmpty?_getD {α : Type} (xs : List α) : (nonEmpty? xs).getD [] = xs := by
  cases xs <;> rfl

theorem eq_of_nonEmpty?_map {α : Type} {wrap : List α → Value} {xs : List α} {v : Value}
    (h : (nonEmpty? xs).map wrap = some v) : v = wrap xs := by
  cases xs with
  | nil => cases h
  | cons x xs => cases h; rfl

theorem eq_nil_of_nonEmpty?_map {α : Type} {wrap : List α → Value} {xs : List α}
    (h : (nonEmpty? xs).map wrap = none) : xs = [] := by
  cases xs with
  | nil => rfl
  | cons x xs => cases h

theorem readsBack_text (s : Option String) (collection : Value) :
    ReadsBack (readOptionalText collection) none s (s.map .string) where
  read_eq := by
    rintro v hv
    obtain ⟨t, rfl, rfl⟩ := Option.map_eq_some_iff.mp hv
    rfl
  eq_default := Option.map_eq_none_iff.mp

theorem readsBack_number {n : Option Nat} (hn : ∀ k, n = some k → k < Text.wordSize 32)
    (collection : Value) :
    ReadsBack (Source.optional natural32 collection) none n
      (n.map fun k : Nat => .number (.int k)) where
  read_eq := by
    rintro v hv
    obtain ⟨k, rfl, rfl⟩ := Option.map_eq_some_iff.mp hv
    exact optional_of_read (natural32_int (hn k rfl)) nofun collection
  eq_default := Option.map_eq_none_iff.mp

theorem encodeOptions_eq_nil_iff {m : SortedMap String OptionValue} :
    encodeOptions m = [] ↔ m = .empty := by
  rw [encodeOptions, List.map_eq_nil_iff, SortedMap.ext_iff]
  rfl

theorem readsBack_options {m : SortedMap String OptionValue}
    (hm : ∀ e ∈ m.entries, e.2.IsReadable) :
    ReadsBack readOptions .empty m ((nonEmpty? (encodeOptions m)).map Value.mapping) where
  read_eq v hv := by
    rw [eq_of_nonEmpty?_map hv, readOptions_encodeOptions hm]
  eq_default h := encodeOptions_eq_nil_iff.mp (eq_nil_of_nonEmpty?_map h)

theorem readsBack_annotations {m : SortedMap String OptionValue}
    (hm : ∀ e ∈ m.entries, e.2.IsReadable) (collection : Value) :
    ReadsBack (readAnnotations collection) .empty m
      ((nonEmpty? (encodeOptions m)).map Value.mapping) where
  read_eq v hv := by
    rw [eq_of_nonEmpty?_map hv, readAnnotations_encodeOptions hm]
  eq_default h := encodeOptions_eq_nil_iff.mp (eq_nil_of_nonEmpty?_map h)

theorem readsBack_bindings (m : SortedMap String String) (collection : Value) :
    ReadsBack (readBindings collection) .empty m
      ((nonEmpty? (m.entries.map fun e => entry e.1 (.string e.2))).map Value.mapping) where
  read_eq v hv := by
    rw [eq_of_nonEmpty?_map hv, readBindings_entries]
  eq_default h := SortedMap.ext (List.map_eq_nil_iff.mp (eq_nil_of_nonEmpty?_map h))

theorem readsBack_placements (directives : List String) :
    ReadsBack readPlacements [] directives
      ((nonEmpty? (directives.map .string)).map Value.sequence) where
  read_eq v hv := by
    rw [eq_of_nonEmpty?_map hv, readPlacements_strings]
  eq_default h := List.map_eq_nil_iff.mp (eq_nil_of_nonEmpty?_map h)

theorem readsBack_flag (flag : Bool) :
    ReadsBack (bool "a boolean") false flag (if flag then some (Value.bool true) else none) where
  read_eq v hv := by
    cases flag with
    | false => cases hv
    | true => cases hv; rfl
  eq_default h := by
    cases flag with
    | false => rfl
    | true => cases h

theorem mappingEntry_eq (name : String) (m : Mapping) :
    mappingEntry name m = (((nonEmpty? m).map Value.mapping).map (entry name)).toList := by
  cases m <;> rfl

theorem listEntry_eq (name : String) (items : List Value) :
    listEntry name items = (((nonEmpty? items).map Value.sequence).map (entry name)).toList := by
  cases items <;> rfl

theorem textEntry_eq (name : String) (s : Option String) :
    textEntry name s = ((s.map Value.string).map (entry name)).toList := by
  cases s <;> rfl

theorem numberEntry_eq (name : String) (n : Option Nat) :
    numberEntry name n =
      ((n.map fun k : Nat => Value.number (.int k)).map (entry name)).toList := by
  cases n <;> rfl

/-! ## Machines -/

def MachineField.all : List MachineField :=
  [.constraints, .series, .annotations]

theorem MachineField.ofName?_name (field : MachineField) :
    MachineField.ofName? field.name = some field := by
  cases field <;> rfl

/-- The value of a field, unless it is left out. -/
def Machine.written? (a : Machine) : MachineField → Option Value
  | .constraints => a.constraints.map .string
  | .series => a.series.map .string
  | .annotations => (nonEmpty? (encodeOptions a.annotations)).map Value.mapping

/-- Takes one field over from another machine. -/
def Machine.take (a b : Machine) : MachineField → Machine
  | .constraints => { b with constraints := a.constraints }
  | .series => { b with series := a.series }
  | .annotations => { b with annotations := a.annotations }

theorem Machine.encode_eq (a : Machine) :
    a.encode = .mapping (MachineField.all.filterMap fun f =>
      (a.written? f).map fun v => (.string f.name, v)) := by
  simp only [Machine.encode, textEntry_eq, mappingEntry_eq, List.filterMap_eq_flatMap_toList,
    MachineField.all, List.flatMap_cons, List.flatMap_nil, List.append_nil, List.append_assoc]
  rfl

/-- A field that was written is read, and one that was left out has its default. -/
theorem Machine.readField_written {a : Machine} (ha : a.IsReadable) (collection : Value)
    (b : Machine) (field : MachineField) (hb : Machine.take {} b field = b) :
    (a.written? field).elim (.ok b) (Machine.readField collection b field) =
      Except.ok (ε := Mismatch) (a.take b field) := by
  cases field with
  | constraints => exact (readsBack_text a.constraints collection).elim_eq _ hb
  | series => exact (readsBack_text a.series collection).elim_eq _ hb
  | annotations => exact (readsBack_annotations ha collection).elim_eq _ hb

theorem Machine.take_comm (a d b : Machine) (f g : MachineField) (h : f ≠ g) :
    d.take (a.take b g) f = a.take (d.take b f) g := by
  cases f <;> cases g <;> first | rfl | exact absurd rfl h

theorem Machine.read_encode {a : Machine} (ha : a.IsReadable) :
    (Machine.read a.encode : Except Mismatch Machine) = .ok a := by
  have hentries : entries "struct Machine" a.encode =
      Except.ok (MachineField.all.filterMap fun f =>
        (a.written? f).map fun v => (Value.string f.name, v)) := by
    rw [a.encode_eq]
    rfl
  have hnodup : MachineField.all.Nodup := by decide
  have hfields := readEntries_written (Machine.readField a.encode) a.encode
    MachineField.ofName?_name a.written? hnodup [] (by simp) {}
  have hfold := foldlM_take (Machine.readField_written ha a.encode) (a.take_comm {})
    MachineField.all hnodup (b := {}) (by decide)
  rw [Machine.read, hentries]
  exact hfields.trans hfold

/-! ## Applications -/

def ApplicationField.all : List ApplicationField :=
  [.charm, .series, .channel, .revision, .numUnits, .options, .placements, .constraints,
    .bindings, .expose, .annotations]

theorem ApplicationField.ofName?_name (field : ApplicationField) :
    ApplicationField.ofName? field.name = some field := by
  cases field <;> rfl

def Application.written? (a : Application) : ApplicationField → Option Value
  | .charm => some (.string a.charm)
  | .series => a.series.map .string
  | .channel => a.channel.map .string
  | .revision => a.revision.map fun n : Nat => .number (.int n)
  | .numUnits => a.numUnits.map fun n : Nat => .number (.int n)
  | .options => (nonEmpty? (encodeOptions a.options)).map Value.mapping
  | .placements => (nonEmpty? (a.placements.map .string)).map Value.sequence
  | .constraints => a.constraints.map .string
  | .bindings =>
      (nonEmpty? (a.bindings.entries.map fun e => entry e.1 (.string e.2))).map Value.mapping
  | .expose => if a.expose then some (.bool true) else none
  | .annotations => (nonEmpty? (encodeOptions a.annotations)).map Value.mapping

/-- Takes one field over from another application; the charm is kept apart. -/
def Application.take (a b : Option String × Application) :
    ApplicationField → Option String × Application
  | .charm => (a.1, b.2)
  | .series => (b.1, { b.2 with series := a.2.series })
  | .channel => (b.1, { b.2 with channel := a.2.channel })
  | .revision => (b.1, { b.2 with revision := a.2.revision })
  | .numUnits => (b.1, { b.2 with numUnits := a.2.numUnits })
  | .options => (b.1, { b.2 with options := a.2.options })
  | .placements => (b.1, { b.2 with placements := a.2.placements })
  | .constraints => (b.1, { b.2 with constraints := a.2.constraints })
  | .bindings => (b.1, { b.2 with bindings := a.2.bindings })
  | .expose => (b.1, { b.2 with expose := a.2.expose })
  | .annotations => (b.1, { b.2 with annotations := a.2.annotations })

theorem Application.take_comm (a d b : Option String × Application) (f g : ApplicationField)
    (h : f ≠ g) :
    Application.take d (Application.take a b g) f =
      Application.take a (Application.take d b f) g := by
  cases f <;> cases g <;> first | rfl | exact absurd rfl h

theorem Application.encode_eq (a : Application) :
    a.encode = .mapping (ApplicationField.all.filterMap fun f =>
      (a.written? f).map fun v => (.string f.name, v)) := by
  have hexpose : (if a.expose then [entry "expose" (.bool true)] else []) =
      ((if a.expose then some (Value.bool true) else none).map (entry "expose")).toList := by
    cases a.expose <;> rfl
  simp only [Application.encode, textEntry_eq, numberEntry_eq, mappingEntry_eq, listEntry_eq,
    hexpose, List.filterMap_eq_flatMap_toList, ApplicationField.all, List.flatMap_cons,
    List.flatMap_nil, List.append_nil, List.append_assoc, List.cons_append]
  rfl

theorem Application.readField_written {a : Application} (ha : a.IsReadable) (collection : Value)
    (b : Option String × Application) (field : ApplicationField)
    (hb : Application.take (none, { charm := "" }) b field = b) :
    (a.written? field).elim (.ok b) (Application.readField collection b field) =
      Except.ok (ε := Mismatch) (Application.take (some a.charm, a) b field) := by
  cases field with
  | charm => rfl
  | series => exact (readsBack_text a.series collection).elim_eq _ hb
  | channel => exact (readsBack_text a.channel collection).elim_eq _ hb
  | revision => exact (readsBack_number ha.revision collection).elim_eq _ hb
  | numUnits => exact (readsBack_number ha.numUnits collection).elim_eq _ hb
  | options => exact (readsBack_options ha.options).elim_eq _ hb
  | placements => exact (readsBack_placements a.placements).elim_eq _ hb
  | constraints => exact (readsBack_text a.constraints collection).elim_eq _ hb
  | bindings => exact (readsBack_bindings a.bindings collection).elim_eq _ hb
  | expose => exact (readsBack_flag a.expose).elim_eq _ hb
  | annotations => exact (readsBack_annotations ha.annotations collection).elim_eq _ hb

theorem Application.read_encode {a : Application} (ha : a.IsReadable) :
    (Application.read a.encode : Except Mismatch Application) = .ok a := by
  have hentries : entries "struct Application" a.encode =
      Except.ok (ApplicationField.all.filterMap fun f =>
        (a.written? f).map fun v => (Value.string f.name, v)) := by
    rw [a.encode_eq]
    rfl
  have hnodup : ApplicationField.all.Nodup := by decide
  have hfields := readEntries_written (Application.readField a.encode) a.encode
    ApplicationField.ofName?_name a.written? hnodup [] (by simp) (none, { charm := "" })
  have hfold := foldlM_take (Application.readField_written ha a.encode)
    (Application.take_comm (some a.charm, a) (none, { charm := "" }))
    ApplicationField.all hnodup (b := (none, { charm := "" })) (by decide)
  rw [Application.read, hentries]
  change (readEntries ApplicationField.ofName? ApplicationField.name
    (Application.readField a.encode) a.encode [] _ _ >>= _) = _
  rw [hfields, hfold]
  rfl

/-! ## Bundles -/

def BundleField.all : List BundleField :=
  [.name, .description, .series, .vars, .machines, .applications, .relations]

theorem BundleField.ofName?_label (field : BundleField) :
    BundleField.ofName? field.label = some field := by
  cases field <;> rfl

def Bundle.written? (b : Bundle) : BundleField → Option Value
  | .name => b.name.map .string
  | .description => b.description.map .string
  | .series => b.series.map .string
  | .vars => (nonEmpty? b.vars).map Value.mapping
  | .machines =>
      (nonEmpty? (b.machines.entries.map fun e => entry e.1.text e.2.encode)).map Value.mapping
  | .applications =>
      some (.mapping (b.applications.entries.map fun e => entry e.1 e.2.encode))
  | .relations => (nonEmpty? (b.relations.map Relation.encode)).map Value.sequence

def Bundle.take (a b : Bundle) : BundleField → Bundle
  | .name => { b with name := a.name }
  | .description => { b with description := a.description }
  | .series => { b with series := a.series }
  | .vars => { b with vars := a.vars }
  | .machines => { b with machines := a.machines }
  | .applications => { b with applications := a.applications }
  | .relations => { b with relations := a.relations }

theorem Bundle.take_comm (a d b : Bundle) (f g : BundleField) (h : f ≠ g) :
    d.take (a.take b g) f = a.take (d.take b f) g := by
  cases f <;> cases g <;> first | rfl | exact absurd rfl h

theorem Bundle.encode_eq (b : Bundle) :
    b.encode = .mapping ((BundleField.all.filterMap fun f =>
      (b.written? f).map fun v => (.string f.label, v)) ++ b.extra.map fun e => entry e.1 e.2) := by
  simp only [Bundle.encode, textEntry_eq, mappingEntry_eq, listEntry_eq,
    List.filterMap_eq_flatMap_toList, BundleField.all, List.flatMap_cons, List.flatMap_nil,
    List.append_nil, List.append_assoc]
  rfl

theorem readMachines_entries {m : SortedMap MachineId Machine}
    (hm : ∀ e ∈ m.entries, e.1.IsReadable ∧ e.2.IsReadable) :
    (readMachines (Value.mapping (m.entries.map fun e => entry e.1.text e.2.encode)) :
      Except Mismatch _) = .ok m := by
  obtain ⟨done, hread, hentries⟩ := uniqueMap_entries "machine id" MachineId.text MachineId.read
    (Source.optional Machine.read) (fun id => .string id.text) Machine.encode some m
    (fun e he => MachineId.read_text (hm e he).1)
    fun e he => optional_of_read (Machine.read_encode (hm e he).2) nofun
  have hmap : (uniqueMap "machine id" MachineId.text MachineId.read (Source.optional Machine.read)
      (Value.mapping (m.entries.map fun e => entry e.1.text e.2.encode)) : Except Mismatch _) =
        .ok done := hread
  rw [readMachines, hmap]
  change Except.ok _ = _
  rw [Except.ok.injEq]
  ext1
  simp [SortedMap.map, SortedMap.filterMap, hentries, Function.comp_def]

theorem readApplications_entries {m : SortedMap String Application}
    (hm : ∀ e ∈ m.entries, e.2.IsReadable) :
    (readApplications (Value.mapping (m.entries.map fun e => entry e.1 e.2.encode)) :
      Except Mismatch _) = .ok m := by
  obtain ⟨done, hread, hentries⟩ := uniqueMap_entries "application name" id (text "a string")
    (fun _ => Application.read) .string Application.encode id m (fun _ _ => rfl)
    fun e he _ => Application.read_encode (hm e he)
  have hdone : done = m := SortedMap.ext (by simpa using hentries)
  exact hdone ▸ hread

theorem readsBack_vars (m : Mapping) (document : Value) :
    ReadsBack (Source.optional mapping document) none (nonEmpty? m)
      ((nonEmpty? m).map Value.mapping) where
  read_eq v hv := by
    cases m with
    | nil => cases hv
    | cons e es => cases hv; rfl
  eq_default h := Option.map_eq_none_iff.mp h

theorem readsBack_relations (rs : List Relation) (document : Value) :
    ReadsBack (Source.optional readRelations document) none (nonEmpty? rs)
      ((nonEmpty? (rs.map Relation.encode)).map Value.sequence) where
  read_eq v hv := by
    cases rs with
    | nil => cases hv
    | cons r rs =>
        cases hv
        exact optional_of_read (readRelations_encode (r :: rs)) nofun document
  eq_default h := by
    rw [List.map_eq_nil_iff.mp (eq_nil_of_nonEmpty?_map h)]
    rfl

theorem readsBack_machines {m : SortedMap MachineId Machine}
    (hm : ∀ e ∈ m.entries, e.1.IsReadable ∧ e.2.IsReadable) :
    ReadsBack readMachines .empty m
      ((nonEmpty? (m.entries.map fun e => entry e.1.text e.2.encode)).map Value.mapping) where
  read_eq v hv := by
    rw [eq_of_nonEmpty?_map hv, readMachines_entries hm]
  eq_default h := SortedMap.ext (List.map_eq_nil_iff.mp (eq_nil_of_nonEmpty?_map h))

theorem Bundle.readField_written {b : Bundle} (hb : b.HasReadableParts) (document : Value)
    (c : Bundle) (field : BundleField) (hc : Bundle.take {} c field = c) :
    (b.written? field).elim (.ok c) (Bundle.readField document c field) =
      Except.ok (ε := Mismatch) (b.take c field) := by
  cases field with
  | name => exact (readsBack_text b.name document).elim_eq _ hc
  | description => exact (readsBack_text b.description document).elim_eq _ hc
  | series => exact (readsBack_text b.series document).elim_eq _ hc
  | vars =>
      have hread := (readsBack_vars b.vars document).elim_eq
        (fun x => { c with vars := x.getD [] }) hc
      rwa [nonEmpty?_getD] at hread
  | machines => exact (readsBack_machines hb.machines).elim_eq _ hc
  | applications =>
      change (readApplications (Value.mapping _) >>= _) = _
      rw [readApplications_entries hb.applications]
      rfl
  | relations =>
      have hread := (readsBack_relations b.relations document).elim_eq
        (fun x => { c with relations := x.getD [] }) hc
      rwa [nonEmpty?_getD] at hread

/-- Sections without a meaning of their own are kept in order. -/
theorem Bundle.readSections_extra (document : Value) {seen : List BundleField} {b : Bundle}
    {es : List (String × Value)}
    (hes : ∀ e ∈ es, BundleField.ofName? e.1 = none ∧ e.2.isUntagged = true) :
    Bundle.readSections document seen b (es.map fun e => entry e.1 e.2) =
      Except.ok (ε := Mismatch) { b with extra := b.extra ++ es } := by
  induction es generalizing b with
  | nil => simp [Bundle.readSections, pure, Except.pure]
  | cons e es ih =>
      obtain ⟨hname, hkept⟩ := hes e (by simp)
      have hvalue : sectionValue e.2 = Except.ok (ε := Mismatch) e.2 := if_pos hkept
      rw [List.map_cons, entry, Bundle.readSections, text_string, ok_bind]
      simp only [hname, hvalue, ok_bind]
      refine (ih fun f hf => hes f (by simp [hf])).trans ?_
      simp

theorem Bundle.readSections_cons_field (document : Value) {seen : List BundleField} {b : Bundle}
    {field : BundleField} {v : Value} {rest : Mapping} (hseen : field ∉ seen) :
    Bundle.readSections document seen b ((.string field.label, v) :: rest) =
      (Bundle.readField document b field v >>= fun b =>
        Bundle.readSections document (field :: seen) b rest : Except Mismatch Bundle) := by
  have hcontains : seen.contains field = false := by
    simpa using hseen
  rw [Bundle.readSections, text_string, ok_bind]
  simp only [BundleField.ofName?_label, hcontains, Bool.false_eq_true, if_false]

theorem Bundle.foldl_take (b : Bundle) :
    BundleField.all.foldl b.take {} = { b with extra := [] } :=
  rfl

theorem Bundle.entries_encode (b : Bundle) :
    entries "struct Bundle" b.encode = Except.ok ((BundleField.all.filterMap fun f =>
      (b.written? f).map fun v => (Value.string f.label, v)) ++
        b.extra.map fun e => entry e.1 e.2) := by
  rw [b.encode_eq]
  rfl

theorem Bundle.readSections_encode {b : Bundle} (hb : b.HasReadableParts) :
    Bundle.readSections b.encode [] {} ((BundleField.all.filterMap fun f =>
      (b.written? f).map fun v => (Value.string f.label, v)) ++
        b.extra.map fun e => entry e.1 e.2) = Except.ok (ε := Mismatch) b := by
  have hnodup : BundleField.all.Nodup := by decide
  have hfields := read_written (Bundle.readSections_cons_field b.encode)
    (fun _ c => Bundle.readSections_extra b.encode (b := c) hb.extra) b.written?
    hnodup [] (by simp) {}
  have hdefault : ∀ f ∈ BundleField.all, Bundle.take {} {} f = {} := by
    intro f _
    cases f <;> rfl
  have hfold := foldlM_take (Bundle.readField_written hb b.encode) (b.take_comm {})
    BundleField.all hnodup hdefault
  rw [hfields, hfold, Bundle.foldl_take]
  rfl

/-- A document whose sections are read as a bundle without repeated keys is that bundle. -/
theorem Bundle.read_of_readSections {document : Value} {es : Mapping} {b : Bundle}
    (hentries : entries "struct Bundle" document = Except.ok (ε := Mismatch) es)
    (hread : Bundle.readSections document [] {} es = Except.ok (ε := Mismatch) b)
    (hdistinct : b.sections.repeatedKey? = none) : Bundle.read document = Except.ok b := by
  rw [Bundle.read, hentries, ok_bind, hread, ok_bind]
  simp only [hdistinct]
  rfl

/-- Decoding gives back every readable bundle that was encoded. -/
theorem Bundle.decode_encode_of_isReadable {b : Bundle} (hb : b.IsReadable) :
    Bundle.decode b.encode = .ok b :=
  Bundle.read_of_readSections b.entries_encode
    (Bundle.readSections_encode hb.toHasReadableParts) hb.distinct

end BundleCheck
