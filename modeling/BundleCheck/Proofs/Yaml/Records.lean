import BundleCheck.Proofs.Yaml.Mapping
import BundleCheck.Proofs.Yaml.Reading

/-! # Records and maps that differ in one entry

A record is read entry by entry. An entry whose value is read alike can take the place of another,
and a null changes nothing if it stands for a field that is otherwise left out. -/

namespace BundleCheck.Yaml.Source

/-! ## Changes of entries -/

/-- The second value has other entries, changed as `R` says, below the tags of the first one. -/
def InEntries (R : Mapping → Mapping → Prop) (v v' : Value) : Prop :=
  ∃ es es', v.entries? = some es ∧ R es es' ∧ v' = v.withEntries es'

inductive Replaced (R : Value × Value → Value × Value → Prop) : Mapping → Mapping → Prop
  | intro (before after : Mapping) {e e' : Value × Value} (h : R e e') :
      Replaced R (before ++ e :: after) (before ++ e' :: after)

/-- A null is added under a key that is read as `field`, as no other key is. -/
inductive NullAdded {φ : Type} (fieldOf? : Value → Option φ) (field : φ) : Mapping → Mapping → Prop
  | intro (before after : Mapping) {key : Value} (hkey : fieldOf? key = some field)
      (hnew : ∀ e ∈ before ++ after, fieldOf? e.1 ≠ some field) :
      NullAdded fieldOf? field (before ++ after) (before ++ (key, .null) :: after)

/-! ## Records -/

section Record

variable {φ β : Type} {known : String → Option φ}

def fieldOf? (known : String → Option φ) (key : Value) : Option φ :=
  key.text?.bind known

theorem fieldOf?_of_text {expected name : String} {key : Value} {field : φ}
    (hname : Source.text expected key = Except.ok (ε := Mismatch) name)
    (hknown : known name = some field) : fieldOf? known key = some field :=
  Option.bind_eq_some_iff.mpr ⟨name, text?_of_text hname, hknown⟩

variable [BEq φ]

/-- Reads the entries of a record from values: `set` takes the fields, and `keep` the rest. -/
def readFields (known : String → Option φ) (fieldName : φ → String)
    (set : β → φ → Value → Except Mismatch β) (keep : β → String → Value → Except Mismatch β) :
    List φ → β → Mapping → Except Mismatch β
  | _, b, [] => .ok b
  | seen, b, (key, value) :: rest => do
      let name ← text "field identifier" key
      match known name with
      | none => readFields known fieldName set keep seen (← keep b name value) rest
      | some field =>
          if seen.contains field then .error (.duplicateField (fieldName field))
          else readFields known fieldName set keep (field :: seen) (← set b field value) rest

variable {fieldName : φ → String}
  {set : β → φ → Value → Except Mismatch β} {keep : β → String → Value → Except Mismatch β}

theorem readEntries_eq_readFields (record : Value) (seen : List φ) (b : β) (es : Mapping) :
    readEntries known fieldName set record seen b es =
      readFields known fieldName set (fun b _ _ => .ok b) seen b es := by
  induction es generalizing seen b with
  | nil => rfl
  | cons e es ih =>
      rw [readEntries, readFields]
      simp only [ih]
      rfl

/-- The value of a field can be replaced by one that is set alike. -/
theorem readFields_replaced {before after : Mapping} {k v v' : Value} {field : φ}
    (hkey : fieldOf? known k = some field) (hset : ∀ b, set b field v = set b field v')
    (seen : List φ) (b : β) :
    readFields known fieldName set keep seen b (before ++ (k, v) :: after) =
      readFields known fieldName set keep seen b (before ++ (k, v') :: after) := by
  induction before generalizing seen b with
  | nil =>
      obtain ⟨name, hname, hknown⟩ := Option.bind_eq_some_iff.mp hkey
      simp only [List.nil_append, readFields, text_of_text? hname, ok_bind, hknown, hset]
  | cons e before ih => simp only [List.cons_append, readFields, ih]

variable [LawfulBEq φ]

/-- What fields were seen does not matter beyond those that are still to be read. -/
theorem readFields_seen {field : φ} {es : Mapping}
    (hnew : ∀ e ∈ es, fieldOf? known e.1 ≠ some field) (seen seen' : List φ)
    (hseen : ∀ g, g ≠ field → (g ∈ seen ↔ g ∈ seen')) (b : β) :
    readFields known fieldName set keep seen b es =
      readFields known fieldName set keep seen' b es := by
  induction es generalizing seen seen' b with
  | nil => rfl
  | cons e es ih =>
      have hrest := ih fun f hf => hnew f (by simp [hf])
      rw [readFields, readFields]
      refine bind_congr_ok fun name hname => ?_
      split
      · exact bind_congr fun b => hrest seen seen' hseen b
      next g hg =>
        have hne : g ≠ field := by
          rintro rfl
          exact hnew e (by simp) (fieldOf?_of_text hname hg)
        have hcontains : seen.contains g = seen'.contains g := by
          rw [Bool.eq_iff_iff, List.contains_iff_mem, List.contains_iff_mem]
          exact hseen g hne
        rw [hcontains]
        split
        · rfl
        · exact bind_congr fun b => hrest _ _ (fun f hf => by simp [hseen f hf]) b

/-- A null leaves a field alone that was not set before. -/
theorem readFields_null {IsDefault : β → Prop} {field : φ}
    (hnull : ∀ b, IsDefault b → set b field .null = .ok b)
    (hset : ∀ b b' g v, g ≠ field → IsDefault b → set b g v = .ok b' → IsDefault b')
    (hkeep : ∀ b b' name v, IsDefault b → keep b name v = .ok b' → IsDefault b')
    {before after : Mapping} {key : Value} (hkey : fieldOf? known key = some field)
    (hnew : ∀ e ∈ before ++ after, fieldOf? known e.1 ≠ some field) {seen : List φ}
    (hseen : field ∉ seen) {b : β} (hb : IsDefault b) :
    readFields known fieldName set keep seen b (before ++ (key, .null) :: after) =
      readFields known fieldName set keep seen b (before ++ after) := by
  induction before generalizing seen b with
  | nil =>
      obtain ⟨name, hname, hknown⟩ := Option.bind_eq_some_iff.mp hkey
      have hcontains : seen.contains field = false := by simpa using hseen
      rw [List.nil_append, List.nil_append, readFields, text_of_text? hname, ok_bind]
      simp only [hknown, hcontains, Bool.false_eq_true, if_false, hnull b hb, ok_bind]
      exact readFields_seen hnew _ _ (fun g hg => by simp [hg]) b
  | cons e before ih =>
      have hrest : ∀ f ∈ before ++ after, fieldOf? known f.1 ≠ some field :=
        fun f hf => hnew f (List.mem_cons_of_mem e hf)
      rw [List.cons_append, List.cons_append, readFields, readFields]
      refine bind_congr_ok fun name hname => ?_
      split
      · exact bind_congr_ok fun b' hb' => ih hrest hseen (hkeep b b' name e.2 hb hb')
      next g hg =>
        have hne : g ≠ field := by
          rintro rfl
          exact hnew e (by simp) (fieldOf?_of_text hname hg)
        split
        · rfl
        · refine bind_congr_ok fun b' hb' => ih hrest ?_ (hset b b' g e.2 hne hb hb')
          simp [hseen, Ne.symm hne]

/-- A null for a field that is left out changes nothing, where a null takes the field over from the
record without entries, and every entry takes over its own field alone. -/
theorem readFields_nullAdded {take : β → β → φ → β} {default : β} {field : φ}
    (hcomm : ∀ a d b f g, f ≠ g → take d (take a b g) f = take a (take d b f) g)
    (hset : ∀ b b' g v, set b g v = .ok b' → b' = take b' b g)
    (hnull : ∀ b, set b field .null = .ok (take default b field))
    (hkeep : ∀ b b' name v, take default b field = b → keep b name v = .ok b' →
      take default b' field = b')
    (hdefault : take default default field = default) {es es' : Mapping}
    (h : NullAdded (fieldOf? known) field es es') :
    readFields known fieldName set keep [] default es =
      readFields known fieldName set keep [] default es' := by
  obtain ⟨before, after, hkey, hnew⟩ := h
  have hothers : ∀ b b' g v, g ≠ field → take default b field = b → set b g v = .ok b' →
      take default b' field = b' := by
    intro b b' g v hne hb h
    rw [hset b b' g v h, hcomm b' default b field g hne.symm, hb]
  refine (readFields_null (fun b hb => ?_) hothers hkeep hkey hnew (by simp) hdefault).symm
  rw [hnull, hb]

end Record

/-! ## Maps -/

section Map

variable {κ α β : Type} [Ord κ] [Std.TransOrd κ] {what : String} {keyText : κ → String}
  {readKey : Value → Except Mismatch κ} {readValue : Value → Except Mismatch α} {record : Value}

/-- Maps do not depend on the part that is blamed for a repeated key. -/
theorem readUnique_record (record' : Value) (done : SortedMap κ α) (es : Mapping) :
    readUnique what keyText readKey readValue record done es =
      readUnique what keyText readKey readValue record' done es := by
  induction es generalizing done with
  | nil => rfl
  | cons e es ih =>
      rw [readUnique, readUnique]
      simp only [ih]
      rfl

/-- An entry can be replaced by one that is read alike. -/
theorem readUnique_replaced {before after : Mapping} {e e' : Value × Value}
    (hkey : readKey e.1 = readKey e'.1) (hvalue : readValue e.2 = readValue e'.2)
    (done : SortedMap κ α) :
    readUnique what keyText readKey readValue record done (before ++ e :: after) =
      readUnique what keyText readKey readValue record done (before ++ e' :: after) := by
  induction before generalizing done with
  | nil => simp only [List.nil_append, readUnique, hkey, hvalue]
  | cons f before ih => simp only [List.cons_append, readUnique, ih]

section Values

variable [Std.LawfulEqOrd κ] [DecidableEq κ]

/-- Values can be changed while they are read. -/
theorem readUnique_map (g : α → β) (done : SortedMap κ α) (es : Mapping) :
    (readUnique what keyText readKey readValue record done es).map (fun m => m.map fun _ => g) =
      readUnique what keyText readKey (fun v => (readValue v).map g) record
        (done.map fun _ => g) es := by
  induction es generalizing done with
  | nil => rfl
  | cons e es ih =>
      rw [readUnique, readUnique, bind_map]
      refine bind_congr_ok fun k _ => ?_
      rw [SortedMap.contains_map]
      split
      · rfl
      · rw [bind_map, map_bind]
        refine bind_congr_ok fun v _ => ?_
        rw [ih, SortedMap.map_insert]

section Dropped

variable {f : κ → α → Option β} {k : κ} {x : α}

/-- An entry that is dropped afterwards does not matter to the entries with other keys. -/
theorem readUnique_insert_dropped (hx : f k x = none) {es : Mapping}
    (hnew : ∀ e ∈ es, readKey e.1 ≠ .ok k) {done : SortedMap κ α} (hdone : done.get? k = none) :
    (readUnique what keyText readKey readValue record (done.insert k x) es).map (·.filterMap f) =
      (readUnique what keyText readKey readValue record done es).map (·.filterMap f) := by
  induction es generalizing done with
  | nil => exact congrArg Except.ok (SortedMap.filterMap_insert_of_none hx hdone)
  | cons e es ih =>
      rw [readUnique, readUnique, bind_map, bind_map]
      refine bind_congr_ok fun j hj => ?_
      have hne : k ≠ j := by
        rintro rfl
        exact hnew e (by simp) hj
      have hcontains : (done.insert k x).contains j = done.contains j := by
        rw [SortedMap.contains, SortedMap.get?_insert, if_neg hne, SortedMap.contains]
      rw [hcontains]
      split
      · rfl
      · rw [bind_map, bind_map]
        refine bind_congr_ok fun v _ => ?_
        rw [SortedMap.insert_comm done hne]
        refine ih (fun e he => hnew e (by simp [he])) ?_
        rw [SortedMap.get?_insert, if_neg hne.symm, hdone]

/-- An entry that is dropped afterwards can be left out, if its key is not read again. -/
theorem readUnique_dropped (hx : f k x = none) {before after : Mapping} {e : Value × Value}
    (hkey : readKey e.1 = .ok k) (hvalue : readValue e.2 = .ok x)
    (hnew : ∀ e ∈ before ++ after, readKey e.1 ≠ .ok k) {done : SortedMap κ α}
    (hdone : done.get? k = none) :
    (readUnique what keyText readKey readValue record done (before ++ e :: after)).map
        (·.filterMap f) =
      (readUnique what keyText readKey readValue record done (before ++ after)).map
        (·.filterMap f) := by
  induction before generalizing done with
  | nil =>
      have hcontains : done.contains k = false := by simp [SortedMap.contains, hdone]
      rw [List.nil_append, readUnique, hkey, ok_bind, hcontains, if_neg Bool.false_ne_true, hvalue,
        ok_bind]
      exact readUnique_insert_dropped hx hnew hdone
  | cons g before ih =>
      rw [List.cons_append, List.cons_append, readUnique, readUnique, bind_map, bind_map]
      refine bind_congr_ok fun j hj => ?_
      have hne : j ≠ k := by
        rintro rfl
        exact hnew g (by simp) hj
      split
      · rfl
      · rw [bind_map, bind_map]
        refine bind_congr_ok fun v _ => ih (fun e he => hnew e (List.mem_cons_of_mem g he)) ?_
        rw [SortedMap.get?_insert, if_neg hne, hdone]

end Dropped

end Values

/-- Maps with changed entries are read alike if the entries are. A map below a tag is refused. -/
theorem uniqueMap_inEntries {γ : Type} {R : Mapping → Mapping → Prop} {v v' : Value}
    (readValue : Value → Value → Except Mismatch α) (f : SortedMap κ α → γ)
    (hcollection : ∀ c, readValue c = readValue .null) (h : InEntries R v v')
    (hread : ∀ es es', R es es' →
      (readUnique what keyText readKey (readValue .null) .null .empty es).map f =
        (readUnique what keyText readKey (readValue .null) .null .empty es').map f) :
    (uniqueMap what keyText readKey readValue v).map f =
      (uniqueMap what keyText readKey readValue v').map f := by
  have hmapping : ∀ es, uniqueMap what keyText readKey readValue (.mapping es) =
      readUnique what keyText readKey (readValue .null) .null .empty es := by
    intro es
    rw [← hcollection (.mapping es)]
    exact readUnique_record .null .empty es
  obtain ⟨es, es', hes, hR, rfl⟩ := h
  cases v with
  | mapping entries =>
      cases hes
      have hchanged : (Value.mapping es).withEntries es' = .mapping es' := rfl
      rw [hchanged, hmapping, hmapping]
      exact hread es es' hR
  | tagged tag w => rfl
  | _ => cases hes

end Map

end BundleCheck.Yaml.Source
