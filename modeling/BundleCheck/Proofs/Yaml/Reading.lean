import BundleCheck.Proofs.Except
import BundleCheck.Proofs.SortedMap
import BundleCheck.Yaml.Source

/-! # Reading records and maps from values

Reading undoes writing: the entries of a record whose fields are distinct set these fields one
after the other, and the entries of a map in key order give the map again. What every field and
every entry satisfies holds of the whole. -/

namespace BundleCheck.Yaml.Source

theorem text_string (expected s : String) :
    Source.text expected (Value.string s) = Except.ok (ε := Mismatch) s :=
  rfl

theorem text?_of_text {expected name : String} {v : Value}
    (h : Source.text expected v = Except.ok (ε := Mismatch) name) : v.text? = some name := by
  simp only [Source.text] at h
  unfold Value.text?
  cases hv : v.untagged with
  | string s =>
      rw [hv] at h
      cases h
      rfl
  | _ => simp [hv, Value.unexpected] at h

theorem text_of_text? {expected name : String} {v : Value} (h : v.text? = some name) :
    Source.text expected v = Except.ok (ε := Mismatch) name := by
  unfold Value.text? at h
  simp only [Source.text]
  cases hv : v.untagged with
  | string s =>
      rw [hv] at h
      cases h
      rfl
  | _ => simp [hv] at h

/-- The entries that are read are those of the value; a null has none. -/
theorem eq_getD_entries?_of_entries {expected : String} {v : Value} {es : List (Value × Value)}
    (h : Source.entries expected v = Except.ok (ε := Mismatch) es) : es = v.entries?.getD [] := by
  simp only [Source.entries] at h
  unfold Value.entries?
  cases hv : v.untagged with
  | mapping entries => simp_all
  | null => simp_all
  | _ => simp [hv, Value.unexpected] at h

theorem entries_of_entries? {expected : String} {v : Value} {es : List (Value × Value)}
    (h : v.entries? = some es) : Source.entries expected v = Except.ok (ε := Mismatch) es := by
  unfold Value.entries? at h
  simp only [Source.entries]
  split at h
  next hv =>
    cases h
    rw [hv]
  · cases h

/-! ## What scalars and collections fail by -/

section Errors

variable {P : Mismatch → Prop} (htype : ∀ found expected, P (.invalidType found expected))

include htype

theorem text_error {expected : String} {v : Value} {cause : Mismatch}
    (h : Source.text expected v = (Except.error cause : Except Mismatch String)) : P cause := by
  simp only [Source.text] at h
  split at h
  · cases h
  · cases h
    exact htype _ _

theorem entries_error {expected : String} {v : Value} {cause : Mismatch}
    (h : Source.entries expected v = (Except.error cause : Except Mismatch _)) :
    P cause := by
  simp only [Source.entries] at h
  split at h
  · cases h
  · cases h
  · cases h
    exact htype _ _

end Errors

/-! ## Records -/

section Record

variable {φ β : Type} {fieldName : φ → String} {set : β → φ → Value → Except Mismatch β}

/-- A reader that sets one field after the other sets those that were written, in order, and goes on
with what comes after them. -/
theorem read_written {reader : List φ → β → List (Value × Value) → Except Mismatch β}
    (hfield : ∀ {seen b field v rest}, field ∉ seen →
      reader seen b ((.string (fieldName field), v) :: rest) =
        set b field v >>= fun b => reader (field :: seen) b rest)
    {rest : List (Value × Value)} {read : β → Except Mismatch β}
    (hrest : ∀ seen b, reader seen b rest = read b) (written? : φ → Option Value)
    {fields : List φ} (hnodup : fields.Nodup) (seen : List φ)
    (hseen : ∀ field ∈ fields, field ∉ seen) (b : β) :
    reader seen b
        ((fields.filterMap fun f => (written? f).map fun v => (.string (fieldName f), v)) ++ rest) =
      fields.foldlM (fun b f => (written? f).elim (.ok b) (set b f)) b >>= read := by
  induction fields generalizing seen b with
  | nil => exact hrest seen b
  | cons field fields ih =>
      obtain ⟨hnotMem, hnodup⟩ := List.nodup_cons.mp hnodup
      rw [List.foldlM_cons, bind_assoc]
      cases hv : written? field with
      | none =>
          simp only [List.filterMap_cons, hv, Option.map_none, Option.elim_none]
          exact ih hnodup seen (fun f hf => hseen f (by simp [hf])) b
      | some v =>
          simp only [List.filterMap_cons, hv, Option.map_some, Option.elim_some, List.cons_append]
          rw [hfield (hseen field (by simp))]
          refine bind_congr fun b => ih hnodup (field :: seen) (fun f hf => ?_) b
          have hne : f ≠ field := fun he => hnotMem (he ▸ hf)
          simp [hne, hseen f (by simp [hf])]

variable [BEq φ] {known : String → Option φ} {record : Value}

/-- Reading one entry of a record sets its field. -/
theorem readEntries_cons_field [LawfulBEq φ] {seen : List φ} {b : β} {name : String}
    {field : φ} {v : Value} {rest : List (Value × Value)} (hknown : known name = some field)
    (hseen : field ∉ seen) :
    readEntries known fieldName set record seen b ((.string name, v) :: rest) =
      set b field v >>= fun b => readEntries known fieldName set record (field :: seen) b rest := by
  have hcontains : seen.contains field = false := by
    simpa using hseen
  rw [readEntries, text_string, ok_bind]
  simp only [hknown, hcontains, Bool.false_eq_true, if_false]

/-- Reading a record sets those of its fields that were written, in order. -/
theorem readEntries_written [LawfulBEq φ] (set : β → φ → Value → Except Mismatch β)
    (record : Value) (hknown : ∀ field, known (fieldName field) = some field)
    (written? : φ → Option Value) {fields : List φ} (hnodup : fields.Nodup) (seen : List φ)
    (hseen : ∀ field ∈ fields, field ∉ seen) (b : β) :
    readEntries known fieldName set record seen b
        (fields.filterMap fun f => (written? f).map fun v => (.string (fieldName f), v)) =
      fields.foldlM (fun b f => (written? f).elim (.ok b) (set b f)) b := by
  have hnil : ∀ seen b, readEntries known fieldName set record seen b [] = pure b :=
    fun _ _ => rfl
  have hwritten :=
    read_written (readEntries_cons_field (hknown _)) hnil written? hnodup seen hseen b
  rw [List.append_nil] at hwritten
  exact hwritten.trans (bind_pure _)

/-- What holds of an empty record and is kept by every entry that is a field holds of the
record. -/
theorem readEntries_preserves_of_mem {P : β → Prop} {entries : List (Value × Value)}
    (hset : ∀ b b' name field, ∀ e ∈ entries,
      Source.text "field identifier" e.1 = Except.ok (ε := Mismatch) name →
      known name = some field → P b → set b field e.2 = .ok b' → P b')
    {seen : List φ} {b b' : β} (hb : P b)
    (h : readEntries known fieldName set record seen b entries = .ok b') : P b' := by
  induction entries generalizing seen b with
  | nil =>
      cases h
      exact hb
  | cons e rest ih =>
      have hrest : ∀ {seen : List φ} {b : β}, P b →
          readEntries known fieldName set record seen b rest = .ok b' → P b' :=
        ih fun b b' name field f hf => hset b b' name field f (by simp [hf])
      rw [readEntries, bind_eq_ok_iff] at h
      obtain ⟨name, hname, h⟩ := h
      split at h
      · rw [bind_eq_ok_iff] at h
        obtain ⟨-, -, h⟩ := h
        exact hrest hb h
      next field hfield =>
        split at h
        · cases h
        · rw [bind_eq_ok_iff] at h
          obtain ⟨c, hc, h⟩ := h
          exact hrest (hset b c name field e (by simp) hname hfield hb hc) h

/-- What holds of an empty record and is kept by every field holds of the record. -/
theorem readEntries_preserves {P : β → Prop}
    (hset : ∀ b b' field v, P b → set b field v = .ok b' → P b') {seen : List φ} {b b' : β}
    {entries : List (Value × Value)} (hb : P b)
    (h : readEntries known fieldName set record seen b entries = .ok b') : P b' :=
  readEntries_preserves_of_mem (fun b b' _ field e _ _ _ hb => hset b b' field e.2 hb) hb h

/-- A record fails by a key that is no text, by a field that comes twice, or by a field. -/
theorem readEntries_error {P : Mismatch → Prop}
    (htype : ∀ found expected, P (.invalidType found expected))
    (hrepeated : ∀ name, P (.duplicateField name))
    (hset : ∀ b field v cause, set b field v = .error cause → P cause) {seen : List φ} {b : β}
    {entries : List (Value × Value)} {cause : Mismatch}
    (h : readEntries known fieldName set record seen b entries = .error cause) : P cause := by
  induction entries generalizing seen b with
  | nil => cases h
  | cons e rest ih =>
      rw [readEntries, bind_eq_error_iff] at h
      rcases h with h | ⟨name, -, h⟩
      · exact text_error htype h
      · split at h
        · rw [bind_eq_error_iff] at h
          rcases h with h | ⟨-, -, h⟩
          · cases h
          · exact ih h
        · split at h
          · cases h
            exact hrepeated _
          · rw [bind_eq_error_iff] at h
            rcases h with h | ⟨c, -, h⟩
            · exact hset _ _ _ _ h
            · exact ih h

end Record

/-! ## Maps -/

section Map

variable {κ α β : Type} [Ord κ] [Std.TransOrd κ]

/-- Entries in key order are put behind one another. -/
theorem readUnique_entries {what : String} {keyText : κ → String}
    {readKey : Value → Except Mismatch κ} {readValue : Value → Except Mismatch β} {record : Value}
    {writeKey : κ → Value} {writeValue : α → Value} {result : α → β} {es : List (κ × α)}
    (hkey : ∀ e ∈ es, readKey (writeKey e.1) = .ok e.1)
    (hvalue : ∀ e ∈ es, readValue (writeValue e.2) = .ok (result e.2)) {done : SortedMap κ β}
    (hsorted : (done.entries ++ es.map fun e => (e.1, result e.2)).Pairwise
      fun a b => compare a.1 b.1 = .lt) :
    ∃ m, readUnique what keyText readKey readValue record done
        (es.map fun e => (writeKey e.1, writeValue e.2)) = .ok m ∧
      m.entries = done.entries ++ es.map fun e => (e.1, result e.2) := by
  induction es generalizing done with
  | nil => exact ⟨done, rfl, by simp⟩
  | cons e es ih =>
      have hlast : ∀ f ∈ done.entries, compare f.1 e.1 = .lt := by
        intro f hf
        exact (List.pairwise_append.mp hsorted).2.2 f hf (e.1, result e.2) (by simp)
      have hinsert := SortedMap.insert_entries_of_forall_lt (v := result e.2) hlast
      have hnext : ((done.insert e.1 (result e.2)).entries ++
          es.map fun e => (e.1, result e.2)).Pairwise fun a b => compare a.1 b.1 = .lt := by
        simpa [hinsert] using hsorted
      obtain ⟨m, hm, hentries⟩ := ih (fun f hf => hkey f (by simp [hf]))
        (fun f hf => hvalue f (by simp [hf])) hnext
      refine ⟨m, ?_, by simp [hentries, hinsert]⟩
      rw [List.map_cons, readUnique, hkey e (by simp), ok_bind,
        SortedMap.contains_eq_false_of_forall_lt hlast, if_neg Bool.false_ne_true,
        hvalue e (by simp), ok_bind]
      exact hm

/-- A map that was written is read entry by entry. -/
theorem uniqueMap_entries (what : String) (keyText : κ → String)
    (readKey : Value → Except Mismatch κ) (readValue : Value → Value → Except Mismatch β)
    (writeKey : κ → Value) (writeValue : α → Value) (result : α → β) (m : SortedMap κ α)
    (hkey : ∀ e ∈ m.entries, readKey (writeKey e.1) = .ok e.1)
    (hvalue : ∀ e ∈ m.entries, ∀ part, readValue part (writeValue e.2) = .ok (result e.2)) :
    ∃ done, uniqueMap what keyText readKey readValue
        (Value.mapping (m.entries.map fun e => (writeKey e.1, writeValue e.2))) = .ok done ∧
      done.entries = m.entries.map fun e => (e.1, result e.2) := by
  have hsorted : ((SortedMap.empty : SortedMap κ β).entries ++
      m.entries.map fun e => (e.1, result e.2)).Pairwise fun a b => compare a.1 b.1 = .lt := by
    simpa [SortedMap.empty, List.pairwise_map] using m.sorted
  exact readUnique_entries hkey (fun e he => hvalue e he _) hsorted

/-- What holds of every entry that is read holds of all entries of the map. -/
theorem readUnique_forall_of_mem {what : String} {keyText : κ → String}
    {readKey : Value → Except Mismatch κ} {readValue : Value → Except Mismatch β} {record : Value}
    {P : κ × β → Prop} {es : List (Value × Value)}
    (hread : ∀ e ∈ es, ∀ k v, readKey e.1 = .ok k → readValue e.2 = .ok v → P (k, v))
    {done m : SortedMap κ β} (hdone : ∀ e ∈ done.entries, P e)
    (h : readUnique what keyText readKey readValue record done es = .ok m) :
    ∀ e ∈ m.entries, P e := by
  induction es generalizing done with
  | nil =>
      cases h
      exact hdone
  | cons e es ih =>
      rw [readUnique, bind_eq_ok_iff] at h
      obtain ⟨k, hk, h⟩ := h
      split at h
      · cases h
      · rw [bind_eq_ok_iff] at h
        obtain ⟨v, hv, h⟩ := h
        refine ih (fun f hf => hread f (by simp [hf])) (fun f hf => ?_) h
        rcases SortedMap.mem_insertEntry hf with rfl | hf
        · exact hread e (by simp) k v hk hv
        · exact hdone f hf

theorem readMap_entries {readValue : Value → Except Mismatch β} {writeValue : β → Value}
    {es : List (String × β)} (hvalue : ∀ e ∈ es, readValue (writeValue e.2) = .ok e.2)
    {done : SortedMap String β}
    (hsorted : (done.entries ++ es).Pairwise fun a b => compare a.1 b.1 = .lt) :
    ∃ m, readMap readValue done (es.map fun e => (.string e.1, writeValue e.2)) = .ok m ∧
      m.entries = done.entries ++ es := by
  induction es generalizing done with
  | nil => exact ⟨done, rfl, by simp⟩
  | cons e es ih =>
      have hlast : ∀ f ∈ done.entries, compare f.1 e.1 = .lt := by
        intro f hf
        exact (List.pairwise_append.mp hsorted).2.2 f hf e (by simp)
      have hinsert := SortedMap.insert_entries_of_forall_lt (v := e.2) hlast
      have hnext : ((done.insert e.1 e.2).entries ++ es).Pairwise
          fun a b => compare a.1 b.1 = .lt := by
        simpa [hinsert] using hsorted
      obtain ⟨m, hm, hentries⟩ := ih (fun f hf => hvalue f (by simp [hf])) hnext
      refine ⟨m, ?_, by simp [hentries, hinsert]⟩
      change (readValue (writeValue e.2) >>= fun v => _) = _
      rw [hvalue e (by simp)]
      exact hm

theorem readMap_forall {readValue : Value → Except Mismatch β} {P : β → Prop}
    (hread : ∀ v x, readValue v = .ok x → P x) {done m : SortedMap String β}
    {es : List (Value × Value)} (hdone : ∀ e ∈ done.entries, P e.2)
    (h : readMap readValue done es = .ok m) : ∀ e ∈ m.entries, P e.2 := by
  induction es generalizing done with
  | nil =>
      cases h
      exact hdone
  | cons e es ih =>
      rw [readMap, bind_eq_ok_iff] at h
      obtain ⟨k, -, h⟩ := h
      rw [bind_eq_ok_iff] at h
      obtain ⟨v, hv, h⟩ := h
      refine ih (fun f hf => ?_) h
      rcases SortedMap.mem_insertEntry hf with rfl | hf
      · exact hread e.2 v hv
      · exact hdone f hf

/-- A map fails by a value or key that is not of the right type, or by a value that is not read. -/
theorem map_error {readValue : Value → Except Mismatch β} {P : Mismatch → Prop}
    (htype : ∀ found expected, P (.invalidType found expected))
    (hread : ∀ v cause, readValue v = .error cause → P cause) {v : Value} {cause : Mismatch}
    (h : Source.map readValue v = .error cause) : P cause := by
  have hmap : ∀ {es : List (Value × Value)} {done : SortedMap String β},
      readMap readValue done es = .error cause → P cause := by
    intro es
    induction es with
    | nil => exact nofun
    | cons e es ih =>
        intro done h
        rw [readMap, bind_eq_error_iff] at h
        rcases h with h | ⟨k, -, h⟩
        · exact text_error htype h
        · rw [bind_eq_error_iff] at h
          rcases h with h | ⟨x, -, h⟩
          · exact hread _ _ h
          · exact ih h
  rw [Source.map, bind_eq_error_iff] at h
  rcases h with h | ⟨es, -, h⟩
  · exact entries_error htype h
  · exact hmap h

end Map

end BundleCheck.Yaml.Source
