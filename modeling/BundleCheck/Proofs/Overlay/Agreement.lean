import BundleCheck.Proofs.Overlay.Sections

/-! # Merging again

Merging an overlay a second time changes nothing but the order of entries, and entries of merged
fields that are null. Mappings are compared under each key, so their order does not count; a part
of a document is observed in few places, and each merge either sets what is observed there or
leaves it as it is. -/

namespace BundleCheck.Overlay

open Yaml

/-! ## Agreement -/

def KeyByKey (R : Value → Option Value → Option Value → Prop) (m n : Mapping) : Prop :=
  ∀ k : Value, k.DistinctKeys → R k (m.get? k) (n.get? k)

/-- The values are equal, or mappings that are related under each key. -/
def MappingsAgree (R : Value → Option Value → Option Value → Prop) (a b : Option Value) : Prop :=
  a = b ∨ ∃ m n, a = some (.mapping m) ∧ b = some (.mapping n) ∧ KeyByKey R m n

/-- What a key holds; a null counts as nothing. -/
def live? (v? : Option Value) : Option Value :=
  v?.filter fun v => !v.isNull

/-- The fields are equal, but for null entries if they are merged key by key. -/
def FieldsAgree (k : Value) (a b : Option Value) : Prop :=
  a = b ∨ keywiseKey k = true ∧ MappingsAgree (fun _ v w => live? v = live? w) a b

def PartsAgree (_ : Value) (a b : Option Value) : Prop :=
  MappingsAgree FieldsAgree a b

/-- Lists of relations may differ in their order. -/
def RelationsAgree (a b : Option Value) : Prop :=
  a = b ∨ ∃ xs ys, a = some (.sequence xs) ∧ b = some (.sequence ys) ∧ xs.Perm ys

/-- The sections under a key hold the same applications, machines or relations; other sections are
equal. -/
def SectionsAgree (k : Value) (a b : Option Value) : Prop :=
  match sectionKind? k with
  | some .applications => MappingsAgree PartsAgree a b
  | some .machines => MappingsAgree PartsAgree a b
  | some .relations => RelationsAgree a b
  | _ => a = b

/-- The documents differ in the order of entries and of relations, and in null entries of fields
that are merged key by key, and in nothing else. -/
def DocumentsAgree (d e : Value) : Prop :=
  MappingsAgree SectionsAgree (some d) (some e)

theorem SectionsAgree.of_eq {k : Value} {a b : Option Value} (h : a = b) :
    SectionsAgree k a b := by
  unfold SectionsAgree
  split
  · exact .inl h
  · exact .inl h
  · exact .inl h
  · exact h

/-! ## Maps that settle -/

/-- The map sets what is observed, or fills it in where there was nothing. -/
def Settles {S X : Type} (inv : S → Prop) (obs : S → Option X) (F : S → S) : Prop :=
  (∃ c, ∀ s, inv s → obs (F s) = c) ∨ ∃ c, ∀ s, inv s → obs (F s) = (obs s).or c

namespace Settles

variable {S T X E : Type} {inv : S → Prop} {obs : S → Option X} {F G : S → S}

theorem of_eq (h : ∀ s, inv s → obs (F s) = obs s) : Settles inv obs F :=
  .inr ⟨none, fun s hs => by rw [h s hs, Option.or_none]⟩

theorem comp (hF : Settles inv obs F) (hkeeps : ∀ s, inv s → inv (F s))
    (hG : Settles inv obs G) : Settles inv obs fun s => G (F s) := by
  rcases hG with ⟨c, hc⟩ | ⟨c, hc⟩
  · exact .inl ⟨c, fun s hs => hc (F s) (hkeeps s hs)⟩
  · rcases hF with ⟨d, hd⟩ | ⟨d, hd⟩
    · exact .inl ⟨d.or c, fun s hs => by rw [hc (F s) (hkeeps s hs), hd s hs]⟩
    · exact .inr ⟨d.or c, fun s hs => by rw [hc (F s) (hkeeps s hs), hd s hs, Option.or_assoc]⟩

theorem foldl {step : S → E → S} {es : List E} (hkeeps : ∀ e ∈ es, ∀ s, inv s → inv (step s e))
    (h : ∀ e ∈ es, Settles inv obs fun s => step s e) :
    Settles inv obs fun s => es.foldl step s := by
  induction es with
  | nil => exact of_eq fun _ _ => rfl
  | cons e es ih =>
      obtain ⟨hkeep, hkeeps⟩ := List.forall_mem_cons.mp hkeeps
      obtain ⟨he, hes⟩ := List.forall_mem_cons.mp h
      exact he.comp hkeep (ih hkeeps hes)

/-- What a map has set or filled in, it leaves as it is. -/
theorem twice (hF : Settles inv obs F) (hkeeps : ∀ s, inv s → inv (F s)) {s : S} (hs : inv s) :
    obs (F s) = obs (F (F s)) := by
  rcases hF with ⟨c, hc⟩ | ⟨c, hc⟩
  · rw [hc s hs, hc (F s) (hkeeps s hs)]
  · rw [hc (F s) (hkeeps s hs), hc s hs, Option.or_assoc, Option.or_self]

theorem comap {part : T → S} {H : T → T} (hF : Settles inv obs F)
    (hpart : ∀ t, part (H t) = F (part t)) :
    Settles (fun t => inv (part t)) (fun t => obs (part t)) H := by
  rcases hF with ⟨c, hc⟩ | ⟨c, hc⟩
  · exact .inl ⟨c, fun t ht => (congrArg obs (hpart t)).trans (hc (part t) ht)⟩
  · exact .inr ⟨c, fun t ht => (congrArg obs (hpart t)).trans (hc (part t) ht)⟩

end Settles

/-! ## Observing a part -/

def PartDistinct (part : Option Value) : Prop :=
  ∀ v, part = some v → v.DistinctKeys

def plain? : Value → Option Value
  | .mapping _ => none
  | v => some v

/-- What a field holds, where a mapping that is merged key by key counts as such only. -/
def fieldOutline (j : Value) (part : Option Value) : Option (Option Value) :=
  ((fieldsOf part).get? j).map fun v => if keywiseKey j then plain? v else some v

/-- What a field that is a mapping holds under a key. -/
def liveEntry (j l : Value) (part : Option Value) : Option Value :=
  live? ((fieldsOf ((fieldsOf part).get? j)).get? l)

theorem plain?_eq_none_iff {v : Value} : plain? v = none ↔ ∃ m, v = .mapping m := by
  cases v <;> simp [plain?]

theorem eq_or_mapping_of_plain?_eq {v w : Value} (h : plain? v = plain? w) :
    v = w ∨ ∃ m n, v = .mapping m ∧ w = .mapping n := by
  cases hv : plain? v with
  | none =>
      obtain ⟨m, rfl⟩ := plain?_eq_none_iff.mp hv
      obtain ⟨n, rfl⟩ := plain?_eq_none_iff.mp (h.symm.trans hv)
      exact .inr ⟨m, n, rfl, rfl⟩
  | some x =>
      left
      have hself : ∀ {u y : Value}, plain? u = some y → u = y := by
        intro u y hu
        cases u <;> simp_all [plain?]
      rw [hself hv, hself (h.symm.trans hv)]

/-- Parts that are observed alike agree. -/
theorem partsAgree_of_observed {k : Value} {a b : Option Value}
    (hplain : a.map plain? = b.map plain?)
    (houtline : ∀ j, j.DistinctKeys → fieldOutline j a = fieldOutline j b)
    (hentry : ∀ j l, j.DistinctKeys → l.DistinctKeys → liveEntry j l a = liveEntry j l b) :
    PartsAgree k a b := by
  cases a with
  | none => exact .inl (Option.map_eq_none_iff.mp hplain.symm).symm
  | some v =>
      obtain ⟨w, rfl, hvw⟩ : ∃ w, b = some w ∧ plain? w = plain? v := by
        simpa [eq_comm] using hplain
      rcases eq_or_mapping_of_plain?_eq hvw.symm with rfl | ⟨m, n, rfl, rfl⟩
      · exact .inl rfl
      refine .inr ⟨m, n, rfl, rfl, fun j hj => ?_⟩
      have hfield : (Mapping.get? m j).map (fun v => if keywiseKey j then plain? v else some v) =
          (Mapping.get? n j).map fun v => if keywiseKey j then plain? v else some v := houtline j hj
      have hentries : ∀ l, l.DistinctKeys → live? ((fieldsOf (Mapping.get? m j)).get? l) =
          live? ((fieldsOf (Mapping.get? n j)).get? l) := fun l hl => hentry j l hj hl
      cases hm : Mapping.get? m j with
      | none =>
          rw [hm] at hfield
          exact .inl (Option.map_eq_none_iff.mp hfield.symm).symm
      | some x =>
          rw [hm] at hfield hentries
          cases hn : Mapping.get? n j with
          | none => simp [hn] at hfield
          | some y =>
              rw [hn] at hfield hentries
              by_cases hkeywise : keywiseKey j = true
              · have hxy : plain? x = plain? y := by simpa [hkeywise] using hfield
                rcases eq_or_mapping_of_plain?_eq hxy with rfl | ⟨p, q, rfl, rfl⟩
                · exact .inl rfl
                · exact .inr ⟨hkeywise, .inr ⟨p, q, rfl, rfl, hentries⟩⟩
              · left
                simpa [hkeywise] using hfield

/-! ## Merging a part again -/

structure SettlesPart {S : Type} (part : S → Option Value) (F : S → S) : Prop where
  keeps : ∀ s, PartDistinct (part s) → PartDistinct (part (F s))
  plain : Settles (fun s => PartDistinct (part s)) (fun s => (part s).map plain?) F
  outline : ∀ j, j.DistinctKeys →
    Settles (fun s => PartDistinct (part s)) (fun s => fieldOutline j (part s)) F
  entry : ∀ j l, j.DistinctKeys → l.DistinctKeys →
    Settles (fun s => PartDistinct (part s)) (fun s => liveEntry j l (part s)) F

namespace SettlesPart

variable {S E : Type} {part : S → Option Value} {F : S → S}

theorem foldl {step : S → E → S} {es : List E}
    (h : ∀ e ∈ es, SettlesPart part fun s => step s e) :
    SettlesPart part fun s => es.foldl step s where
  keeps := by
    induction es with
    | nil => exact fun _ hs => hs
    | cons e es ih =>
        obtain ⟨he, hes⟩ := List.forall_mem_cons.mp h
        exact fun s hs => ih hes (step s e) (he.keeps s hs)
  plain := .foldl (fun e he => (h e he).keeps) fun e he => (h e he).plain
  outline j hj := .foldl (fun e he => (h e he).keeps) fun e he => (h e he).outline j hj
  entry j l hj hl := .foldl (fun e he => (h e he).keeps) fun e he => (h e he).entry j l hj hl

theorem comap {T : Type} {old : T → S} {H : T → T} (hF : SettlesPart part F)
    (hold : ∀ t, old (H t) = F (old t)) : SettlesPart (fun t => part (old t)) H where
  keeps t ht := by
    rw [hold]
    exact hF.keeps (old t) ht
  plain := hF.plain.comap hold
  outline j hj := (hF.outline j hj).comap hold
  entry j l hj hl := (hF.entry j l hj hl).comap hold

/-- A map that settles a part changes nothing of it when it is applied again. -/
theorem partsAgree (hF : SettlesPart part F) (k : Value) {s : S} (hs : PartDistinct (part s)) :
    PartsAgree k (part (F s)) (part (F (F s))) :=
  partsAgree_of_observed (hF.plain.twice hF.keeps hs)
    (fun j hj => (hF.outline j hj).twice hF.keeps hs)
    fun j l hj hl => (hF.entry j l hj hl).twice hF.keeps hs

end SettlesPart

/-- A field takes the new value, or is merged with it key by key. -/
theorem mergedField_cases (j : Value) (old : Option Value) (v : Value) :
    (mergedField j old v = v ∧ ¬ (keywiseKey j = true ∧
      (∃ existing, old = some (.mapping existing)) ∧ ∃ incoming, v = .mapping incoming)) ∨
    ∃ existing incoming, keywiseKey j = true ∧ old = some (.mapping existing) ∧
      v = .mapping incoming ∧
        mergedField j old v = .mapping (incoming.foldl mergeKey existing) := by
  unfold mergedField
  split
  next existing incoming hkeywise => exact .inr ⟨existing, incoming, hkeywise, rfl, rfl, rfl⟩
  next hother =>
    refine .inl ⟨rfl, ?_⟩
    rintro ⟨hkeywise, ⟨existing, hold⟩, incoming, hv⟩
    exact hother existing incoming hkeywise hold hv

theorem plain?_mergedField (j : Value) (old : Option Value) (v : Value) :
    (if keywiseKey j then plain? (mergedField j old v) else some (mergedField j old v)) =
      if keywiseKey j then plain? v else some v := by
  rcases mergedField_cases j old v with ⟨h, -⟩ | ⟨existing, incoming, hkeywise, -, rfl, h⟩
  · rw [h]
  · rw [h, if_pos hkeywise, if_pos hkeywise]
    rfl

theorem live?_eq_none_of_isNull {v : Value} (h : v.isNull = true) : live? (some v) = none := by
  simp [live?, h]

theorem live?_mergedUnder (l : Value) (old new : Option Value) :
    live? (mergedUnder mergedKey l old new) = if new.isSome then live? new else live? old := by
  cases new with
  | none => rfl
  | some w =>
      change live? (mergedKey l old w) = live? (some w)
      unfold mergedKey
      by_cases hnull : w.isNull = true
      · rw [if_pos hnull, live?_eq_none_of_isNull hnull]
        rfl
      · rw [if_neg hnull]

/-- An entry of a merged field is the new one, if there is one. -/
theorem settles_mergedField (j : Value) {l v : Value} (hl : l.DistinctKeys)
    (hv : v.DistinctKeys) : Settles PartDistinct (fun old => live? ((fieldsOf old).get? l))
      fun old => some (mergedField j old v) := by
  by_cases hmerged : keywiseKey j = true ∧ ∃ incoming, v = .mapping incoming
  · obtain ⟨hkeywise, incoming, rfl⟩ := hmerged
    have hincoming := Value.distinctKeys_mapping_iff.mp hv
    have hlive : ∀ old, PartDistinct old →
        live? ((fieldsOf (some (mergedField j old (.mapping incoming)))).get? l) =
          if (Mapping.get? incoming l).isSome then live? (Mapping.get? incoming l)
          else live? ((fieldsOf old).get? l) := by
      intro old hold
      rw [← live?_mergedUnder l]
      rcases mergedField_cases j old (.mapping incoming) with
        ⟨h, hnot⟩ | ⟨existing, _, -, rfl, h', h⟩
      · have hnone : fieldsOf old = [] := fieldsOf_eq_nil fun existing hex =>
          hnot ⟨hkeywise, ⟨existing, hex⟩, incoming, rfl⟩
        rw [h, hnone, live?_mergedUnder]
        change live? (Mapping.get? incoming l) = _
        cases Mapping.get? incoming l with
        | none => rfl
        | some w => rfl
      · cases h'
        rw [h]
        exact congrArg live? (keyLocal_mergeKey.get?_foldl
          (Value.distinctKeys_mapping_iff.mp (hold _ rfl)) hincoming hl)
    by_cases hsome : (Mapping.get? incoming l).isSome
    · refine .inl ⟨live? (Mapping.get? incoming l), fun old hold => ?_⟩
      exact (hlive old hold).trans (if_pos hsome)
    · exact .of_eq fun old hold => (hlive old hold).trans (if_neg hsome)
  · refine .inl ⟨live? ((fieldsOf (some v)).get? l), fun old _ => ?_⟩
    rcases mergedField_cases j old v with ⟨h, -⟩ | ⟨_, incoming, hkeywise, -, rfl, -⟩
    · exact congrArg (fun w => live? ((fieldsOf (some w)).get? l)) h
    · exact absurd ⟨hkeywise, incoming, rfl⟩ hmerged

theorem settles_fieldOutline (j v : Value) :
    Settles PartDistinct (Option.map fun v => if keywiseKey j then plain? v else some v)
      fun old => some (mergedField j old v) :=
  .inl ⟨some (if keywiseKey j then plain? v else some v), fun old _ =>
    congrArg some (plain?_mergedField j old v)⟩

/-- What settles when a field is merged settles when the part is. -/
theorem settles_mergedPart_of_field {X : Type} {obs : Option Value → Option X} (k : Value)
    {j new : Value} (hj : j.DistinctKeys) (hnew : new.DistinctKeys)
    (hobs : ∀ v, v.DistinctKeys → Settles PartDistinct obs fun old => some (mergedField j old v)) :
    Settles PartDistinct (fun part => obs ((fieldsOf part).get? j)) fun old =>
      mergedPart k old new := by
  cases new with
  | mapping fields =>
      have hfields := Value.distinctKeys_mapping_iff.mp hnew
      have hget : ∀ part, PartDistinct part →
          obs ((fieldsOf (mergedPart k part (.mapping fields))).get? j) =
            obs (mergedUnder (fun j old new => some (mergedField j old new)) j
              ((fieldsOf part).get? j) (Mapping.get? fields j)) := fun part hpart =>
        congrArg obs (keyLocal_mergeField.get?_foldl (distinctKeys_fieldsOf hpart) hfields hj)
      cases hfield : Mapping.get? fields j with
      | none =>
          rw [hfield] at hget
          exact .of_eq hget
      | some v =>
          have hold : ∀ part, PartDistinct part → PartDistinct ((fieldsOf part).get? j) :=
            fun part hpart _ => (distinctKeys_fieldsOf hpart).of_get?
          rw [hfield] at hget
          rcases hobs v (hfields.of_get? hfield) with ⟨c, hc⟩ | ⟨c, hc⟩
          · exact .inl ⟨c, fun part hpart => (hget part hpart).trans (hc _ (hold part hpart))⟩
          · exact .inr ⟨c, fun part hpart => (hget part hpart).trans (hc _ (hold part hpart))⟩
  | _ => exact .inl ⟨obs none, fun _ _ => rfl⟩

/-- Merging into a part settles it. -/
theorem settlesPart_mergedPart (k : Value) {new : Value} (hnew : new.DistinctKeys) :
    SettlesPart id fun old => mergedPart k old new where
  keeps old hold v hv := distinctKeys_mergedPart hold hnew hv
  plain := by
    cases new with
    | null => exact .inl ⟨none, fun _ _ => rfl⟩
    | mapping fields => exact .inl ⟨some none, fun _ _ => rfl⟩
    | _ => exact .inl ⟨some (some _), fun _ _ => rfl⟩
  outline j hj := settles_mergedPart_of_field k hj hnew fun v _ => settles_fieldOutline j v
  entry j l hj hl := settles_mergedPart_of_field k hj hnew fun _ hv => settles_mergedField j hl hv

/-! ## Merging parts again -/

/-- Applications that are merged again agree with what they were. -/
theorem keyByKey_mergeParts {m new : Mapping} (hm : m.DistinctKeys) (hnew : new.DistinctKeys) :
    KeyByKey PartsAgree (new.foldl mergePart m)
      (new.foldl mergePart (new.foldl mergePart m)) := by
  intro k hk
  rw [keyLocal_mergePart.get?_foldl (keyLocal_mergePart.foldl_distinctKeys hm hnew) hnew hk,
    keyLocal_mergePart.get?_foldl hm hnew hk]
  cases hget : new.get? k with
  | none => exact .inl rfl
  | some v => exact (settlesPart_mergedPart k (hnew.of_get? hget)).partsAgree k fun _ => hm.of_get?

/-! ## Merging machines again -/

theorem snd_mergedMachine (old : Option (Value × Value)) (e : Value × Value) :
    (mergedMachine old e).map (·.2) = mergedPart e.1 (old.map (·.2)) e.2 := by
  rw [mergedMachine, Option.map_map]
  exact Option.map_id'

theorem settlesPart_mergedMachine {e : Value × Value} (he : e.2.DistinctKeys) :
    SettlesPart (Option.map (·.2)) fun old => mergedMachine old e :=
  (settlesPart_mergedPart e.1 he).comap fun old => snd_mergedMachine old e

/-- A machine keeps its key while it is there. -/
theorem settles_mergedMachine_fst (inv : Option (Value × Value) → Prop) (e : Value × Value) :
    Settles inv (Option.map (·.1)) fun old => mergedMachine old e := by
  obtain ⟨k, v⟩ := e
  cases v with
  | null => exact .inl ⟨none, fun _ _ => rfl⟩
  | _ =>
      refine .inr ⟨some k, fun old _ => ?_⟩
      cases old <;> rfl

/-- Mappings with the same keys are compared entry by entry. -/
theorem keyByKey_of_entries {R : Value → Option Value → Option Value → Prop} {m n : Mapping}
    (hn : n.DistinctKeys) (hnone : ∀ k, R k none none)
    (hleft : ∀ b ∈ m, ∃ c ∈ n, c.1 = b.1 ∧ ∀ k, R k (some b.2) (some c.2))
    (hright : ∀ c ∈ n, ∃ b ∈ m, b.1 = c.1) : KeyByKey R m n := by
  intro k hk
  cases hget : m.get? k with
  | none =>
      have hget' : n.get? k = none := by
        rw [Mapping.get?_eq_none_iff] at hget ⊢
        intro c hc
        obtain ⟨b, hb, hkey⟩ := hright c hc
        rw [← hkey]
        exact hget b hb
      rw [hget']
      exact hnone k
  | some v =>
      obtain ⟨b, hb, hkb, rfl⟩ := Mapping.exists_mem_of_get?_eq_some hget
      obtain ⟨c, hc, hkey, hagree⟩ := hleft b hb
      rw [← hkey] at hkb
      rw [(Mapping.get?_eq_some_iff hn hk).mpr ⟨c, hc, hkb, rfl⟩]
      exact hagree k

section MergeMachines

variable {m new : Mapping} (hm : m.DistinctKeys) (hnew : new.DistinctKeys)
  (hn : ∀ e ∈ new, NamedOnce m e.1) (hzero : ∀ e ∈ new, isZeroKey e.1 = false)

include hm hnew hn hzero

theorem namedOnce_mergeMachines :
    ∀ e ∈ new, NamedOnce (new.foldl mergeMachine m) e.1 := fun e he =>
  (machine?_mergeMachines hm hnew hn hzero (hnew.parts e he).1 (hn e he)).1

/-- A machine that is merged again has the key it had, and agrees with what it was. -/
theorem machine?_mergeMachines_again {e : Value × Value} (he : e ∈ new) :
    (machine? (new.foldl mergeMachine m) e.1).map (·.1) =
        (machine? (new.foldl mergeMachine (new.foldl mergeMachine m)) e.1).map (·.1) ∧
      ∀ k, PartsAgree k ((machine? (new.foldl mergeMachine m) e.1).map (·.2))
        ((machine? (new.foldl mergeMachine (new.foldl mergeMachine m)) e.1).map (·.2)) := by
  have hk := (hnew.parts e he).1
  have hm' := distinctKeys_mergeMachines hm hnew
  have hn' := namedOnce_mergeMachines hm hnew hn hzero
  have hparts : PartDistinct ((machine? m e.1).map (·.2)) := by
    intro v hv
    obtain ⟨b, hb, rfl⟩ := Option.map_eq_some_iff.mp hv
    exact (hm.parts b (List.mem_of_find?_eq_some hb)).2
  have hsettles : SettlesPart (Option.map (·.2)) fun old =>
      (new.filter fun f => nameSame e.1 f.1).foldl mergedMachine old :=
    .foldl fun f hf => settlesPart_mergedMachine (hnew.parts f (List.mem_of_mem_filter hf)).2
  rw [(machine?_mergeMachines hm' hnew hn' hzero hk (hn' e he)).2,
    (machine?_mergeMachines hm hnew hn hzero hk (hn e he)).2]
  have hkeys : Settles (fun _ => True) (Option.map (·.1)) fun old : Option (Value × Value) =>
      (new.filter fun f => nameSame e.1 f.1).foldl mergedMachine old :=
    .foldl (fun _ _ _ _ => trivial) fun f _ => settles_mergedMachine_fst _ f
  exact ⟨hkeys.twice (fun _ _ => trivial) trivial, fun k => hsettles.partsAgree k hparts⟩

/-- Machines that are merged again agree with what they were. -/
theorem keyByKey_mergeMachines : KeyByKey PartsAgree (new.foldl mergeMachine m)
    (new.foldl mergeMachine (new.foldl mergeMachine m)) := by
  have hm' := distinctKeys_mergeMachines hm hnew
  have hn' := namedOnce_mergeMachines hm hnew hn hzero
  have hn'' := namedOnce_mergeMachines hm' hnew hn' hzero
  have hsplit : ∀ b : Value × Value, (∃ e ∈ new, nameSame e.1 b.1 = true) ∨
      ∀ e ∈ new, nameSame e.1 b.1 = false := by
    intro b
    by_cases h : ∃ e ∈ new, nameSame e.1 b.1 = true
    · exact .inl h
    · exact .inr (by simpa using h)
  refine keyByKey_of_entries (distinctKeys_mergeMachines hm' hnew) (fun _ => .inl rfl) ?_ ?_
  · intro b hb
    rcases hsplit b with ⟨e, he, hname⟩ | hother
    · obtain ⟨hkey, hagree⟩ := machine?_mergeMachines_again hm hnew hn hzero he
      rw [(machine?_eq_some_iff (hn' e he)).mpr ⟨hb, hname⟩] at hkey hagree
      obtain ⟨c, hc, hcb⟩ := Option.map_eq_some_iff.mp hkey.symm
      rw [hc] at hagree
      exact ⟨c, List.mem_of_find?_eq_some hc, hcb, hagree⟩
    · exact ⟨b, (mem_mergeMachines_of_nameSame_eq_false hm' hnew hn' hzero hother).mpr hb, rfl,
        fun _ => .inl rfl⟩
  · intro c hc
    rcases hsplit c with ⟨e, he, hname⟩ | hother
    · have hkey := (machine?_mergeMachines_again hm hnew hn hzero he).1
      rw [(machine?_eq_some_iff (hn'' e he)).mpr ⟨hc, hname⟩] at hkey
      obtain ⟨b, hb, hbc⟩ := Option.map_eq_some_iff.mp hkey
      exact ⟨b, List.mem_of_find?_eq_some hb, hbc⟩
    · exact ⟨c, (mem_mergeMachines_of_nameSame_eq_false hm' hnew hn' hzero hother).mp hc, rfl⟩

end MergeMachines

end BundleCheck.Overlay
