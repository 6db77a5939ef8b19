import BundleCheck.Details
import BundleCheck.Proofs.Constraints.Values

/-! # The canonical text of constraints

Constraints are written as the list of their settings, in a fixed order and each once. Every setting
that was read can be written and is read back as it was, so that constraints are known by their
canonical text. -/

namespace BundleCheck.Constraints

open Text

/-! ## Keys -/

/-- A slot whose key can be cut off a pair, and names it. -/
structure Slot.IsNamed (slot : Slot) : Prop where
  ofKey_key : Slot.ofKey slot.key = slot
  key_ne_empty : slot.key ≠ ""
  equals_notMem_key : '=' ∉ slot.key.toList
  noBlank_key : NoBlank slot.key.toList

def knownSlots : List Slot :=
  [.text .arch, .number .cores, .number .cpuPower, .size .mem, .size .rootDisk,
    .text .rootDiskSource, .text .container, .text .virtType, .text .instanceType, .publicIp,
    .list .tags, .list .spaces, .list .zones]

theorem isNamed_of_mem_knownSlots {slot : Slot} (h : slot ∈ knownSlots) : slot.IsNamed := by
  have hknown : ∀ slot ∈ knownSlots, Slot.ofKey slot.key = slot ∧ slot.key ≠ "" ∧
      '=' ∉ slot.key.toList ∧ NoBlank slot.key.toList := by
    decide
  obtain ⟨hofKey, hne, hequals, hblank⟩ := hknown slot h
  exact ⟨hofKey, hne, hequals, hblank⟩

/-- Every slot has a key of its own or is named by an unknown key. -/
theorem mem_knownSlots_or (slot : Slot) : slot ∈ knownSlots ∨ ∃ key, slot = .unknown key := by
  rcases slot with (_ | _) | (_ | _) | (_ | _ | _ | _ | _) | _ | (_ | _ | _) | key
  case unknown => exact .inr ⟨key, rfl⟩
  all_goals exact .inl (by decide)

/-- An unknown key is named by its slot. -/
theorem eq_of_ofKey {key other : String} (h : Slot.ofKey key = .unknown other) : other = key := by
  unfold Slot.ofKey at h
  split at h
  case h_15 => exact (Slot.unknown.inj h).symm
  all_goals cases h

/-- A pair is cut at its first equals sign, and only if a key stands before it. -/
theorem splitPair_eq_ok_iff {pair value : List Char} {key : String} :
    splitPair pair = .ok (key, value) ↔
      pair = pairChars key value ∧ key ≠ "" ∧ '=' ∉ key.toList := by
  unfold splitPair pairChars
  split
  next front back hcut =>
    constructor
    · intro h
      obtain ⟨rfl, hkey⟩ := cutFirst_eq_some.mp hcut
      split at h
      · cases h
      next hne =>
        cases h
        exact ⟨by simp, by simpa using hne, by simpa using hkey⟩
    · rintro ⟨rfl, hne, hkey⟩
      rw [cutFirst_eq_some.mpr ⟨rfl, hkey⟩] at hcut
      cases hcut
      simp [hne]
  next hcut =>
    constructor
    · exact nofun
    · rintro ⟨rfl, -⟩
      exact absurd (by simp) (cutFirst_eq_none.mp hcut)

/-! ## Settings that can be read -/

namespace Setting

def valueChars : Setting → List Char
  | .size _ n => sizeChars n
  | .number _ n => decimal n
  | .text _ s => s.elim [] String.toList
  | .publicIp b => (if b then "true" else "false").toList
  | .list _ items => joinWith [','] (items.map String.toList)
  | .unknown _ value => value.toList

def pair (s : Setting) : List Char :=
  pairChars s.slot.key s.valueChars

def IsReadable : Setting → Prop
  | .size _ n => IsSize n
  | .number _ n => n < wordSize 64
  | .text _ s => ∀ t, s = some t → t ≠ "" ∧ NoBlank t.toList
  | .publicIp _ => True
  | .list _ items => ∀ item ∈ items, IsItem item
  | .unknown key value => (Slot.unknown key).IsNamed ∧ NoBlank value.toList

variable {s : Setting}

theorem IsReadable.isNamed (h : s.IsReadable) : s.slot.IsNamed := by
  rcases mem_knownSlots_or s.slot with hknown | ⟨key, hslot⟩
  · exact isNamed_of_mem_knownSlots hknown
  · cases s with
    | unknown => exact h.1
    | _ => cases hslot

/-- The value of a readable setting is read back, whatever key it stands with. -/
theorem IsReadable.read_valueChars (h : s.IsReadable) (key : String) :
    s.slot.read key s.valueChars = .ok s := by
  cases s with
  | size field n => exact map_eq_ok_iff.mpr ⟨n, readSize_eq_ok_iff.mpr (size?_sizeChars h), rfl⟩
  | number field n =>
      exact map_eq_ok_iff.mpr ⟨n, readNumber_eq_ok_iff.mpr (natural?_decimal h), rfl⟩
  | text field s =>
      cases s with
      | none => rfl
      | some t => simp only [slot, Slot.read, valueChars, Option.elim, text?_toList (h t rfl).1]
  | publicIp b => cases b <;> rfl
  | list field items => simp only [slot, Slot.read, valueChars, items_joinWith h]
  | unknown key value => simp only [slot, Slot.read, valueChars, String.ofList_toList]

theorem IsReadable.noBlank_valueChars (h : s.IsReadable) : NoBlank s.valueChars := by
  cases s with
  | size field n => exact noBlank_sizeChars n
  | number field n => exact noBlank_decimal n
  | text field s =>
      cases s with
      | none => exact nofun
      | some t => exact (h t rfl).2
  | publicIp b => cases b <;> decide
  | list field items => exact noBlank_itemsChars h
  | unknown key value => exact h.2

/-- A readable setting is read back from its pair. -/
theorem IsReadable.readPair_pair (h : s.IsReadable) : readPair s.pair = .ok (s.slot.key, s) := by
  have hsplit : splitPair s.pair = .ok (s.slot.key, s.valueChars) :=
    splitPair_eq_ok_iff.mpr ⟨rfl, h.isNamed.key_ne_empty, h.isNamed.equals_notMem_key⟩
  refine readPair_eq_ok_iff.mpr ⟨s.valueChars, hsplit, ?_⟩
  rw [h.isNamed.ofKey_key]
  exact h.read_valueChars s.slot.key

/-- The pair of a readable setting is a word. -/
theorem IsReadable.pair_word (h : s.IsReadable) : s.pair ≠ [] ∧ NoBlank s.pair := by
  refine ⟨by simp [pair, pairChars], h.isNamed.noBlank_key.append ?_⟩
  exact List.forall_mem_cons.mpr ⟨by decide, h.noBlank_valueChars⟩

end Setting

/-- What is read from a word is readable. -/
theorem isReadable_of_readPair {word : List Char} {key : String} {s : Setting}
    (hword : NoBlank word) (h : readPair word = .ok (key, s)) : s.IsReadable := by
  obtain ⟨value, hsplit, hread⟩ := readPair_eq_ok_iff.mp h
  obtain ⟨rfl, hne, hequals⟩ := splitPair_eq_ok_iff.mp hsplit
  have hkey : NoBlank key.toList := fun c hc => hword c (by simp [pairChars, hc])
  have hvalue : NoBlank value := fun c hc => hword c (by simp [pairChars, hc])
  cases hslot : Slot.ofKey key with
  | size field =>
      rw [hslot] at hread
      obtain ⟨n, hn, rfl⟩ := map_eq_ok_iff.mp hread
      exact isSize_of_size? (readSize_eq_ok_iff.mp hn)
  | number field =>
      rw [hslot] at hread
      obtain ⟨n, hn, rfl⟩ := map_eq_ok_iff.mp hread
      exact lt_wordSize_of_natural? (readNumber_eq_ok_iff.mp hn)
  | text field =>
      rw [hslot] at hread
      cases hread
      intro t ht
      unfold text? at ht
      split at ht
      · cases ht
      next hne =>
        cases ht
        exact ⟨by simpa using hne, by simpa using hvalue⟩
  | publicIp =>
      rw [hslot] at hread
      obtain ⟨b, -, rfl⟩ := map_eq_ok_iff.mp hread
      exact trivial
  | list field =>
      rw [hslot] at hread
      cases hread
      exact fun item hitem => isItem_of_mem_items hvalue hitem
  | unknown other =>
      obtain rfl := eq_of_ofKey hslot
      rw [hslot] at hread
      cases hread
      exact ⟨⟨hslot, hne, hequals, hkey⟩, by simpa using hvalue⟩

/-! ## Constraints as lists of settings -/

def settings (c : Constraints) : List Setting :=
  knownSlots.filterMap c.setting? ++ c.unknown.entries.map fun e => .unknown e.1 e.2

/-- What is written for constraints are their settings. -/
theorem pairs_eq (c : Constraints) : c.pairs = c.settings.map Setting.pair := by
  have hsize : ∀ (field : SizeField) (n : Option Nat),
      optionPair (Slot.size field).key (n.map sizeChars) =
        (n.map (Setting.size field)).toList.map Setting.pair := by
    intro field n
    cases n <;> rfl
  have hnumber : ∀ (field : NumberField) (n : Option Nat),
      optionPair (Slot.number field).key (n.map decimal) =
        (n.map (Setting.number field)).toList.map Setting.pair := by
    intro field n
    cases n <;> rfl
  have htext : ∀ (field : TextField) (s : Option String),
      optionPair (Slot.text field).key (s.map String.toList) =
        (Setting.text field s).effective?.toList.map Setting.pair := by
    intro field s
    cases s <;> rfl
  have hlist : ∀ (field : ListField) (items : List String),
      listPair (Slot.list field).key items =
        (Setting.list field items).effective?.toList.map Setting.pair := by
    intro field items
    cases items <;> rfl
  have hpublicIp : optionPair Slot.publicIp.key
      (c.allocatePublicIp.map fun b => (if b then "true" else "false").toList) =
        (c.allocatePublicIp.map Setting.publicIp).toList.map Setting.pair := by
    cases c.allocatePublicIp <;> rfl
  simp only [settings, List.filterMap_eq_flatMap_toList, knownSlots, List.flatMap_cons,
    List.flatMap_nil, List.append_nil, List.map_append, List.map_map, setting?, ← hsize, ← hnumber,
    ← htext, ← hlist, ← hpublicIp]
  simp only [pairs, Slot.key, List.append_assoc]
  rfl

/-- What is found in a slot is a setting of this slot that has an effect. -/
theorem slot_of_setting? {c : Constraints} {slot : Slot} {s : Setting}
    (h : c.setting? slot = some s) : s.slot = slot ∧ s.effective? = some s := by
  have heffective : ∀ t : Setting, t.effective? = some s → s.slot = t.slot ∧
      s.effective? = some s := by
    intro t ht
    obtain rfl := Setting.eq_of_effective? ht
    exact ⟨rfl, ht⟩
  cases slot with
  | text field => cases field <;> exact heffective _ h
  | list field => cases field <;> exact heffective _ h
  | publicIp =>
      obtain ⟨b, -, rfl⟩ := Option.map_eq_some_iff.mp h
      exact ⟨rfl, rfl⟩
  | unknown key =>
      obtain ⟨value, -, rfl⟩ := Option.map_eq_some_iff.mp h
      exact ⟨rfl, rfl⟩
  | _ field =>
      cases field
      all_goals
        obtain ⟨n, -, rfl⟩ := Option.map_eq_some_iff.mp h
        exact ⟨rfl, rfl⟩

theorem mem_settings {c : Constraints} {s : Setting} :
    s ∈ c.settings ↔ c.setting? s.slot = some s := by
  simp only [settings, List.mem_append, List.mem_filterMap, List.mem_map]
  constructor
  · rintro (⟨slot, -, h⟩ | ⟨⟨key, value⟩, he, rfl⟩)
    · rwa [(slot_of_setting? h).1]
    · exact Option.map_eq_some_iff.mpr ⟨value, SortedMap.get?_eq_some_iff.mpr he, rfl⟩
  · intro h
    rcases mem_knownSlots_or s.slot with hknown | ⟨key, hslot⟩
    · exact .inl ⟨s.slot, hknown, h⟩
    · rw [hslot] at h
      obtain ⟨value, hvalue, rfl⟩ := Option.map_eq_some_iff.mp h
      exact .inr ⟨(key, value), SortedMap.get?_eq_some_iff.mp hvalue, rfl⟩

theorem nodup_settings (c : Constraints) : c.settings.Nodup := by
  refine List.Nodup.append ?_ ?_ ?_
  · refine List.Nodup.filterMap (fun slot slot' s hs hs' => ?_) (by decide)
    rw [← (slot_of_setting? hs).1, ← (slot_of_setting? hs').1]
  · exact c.unknown.nodup_entries.map fun e f h => Prod.ext (by simp_all) (by simp_all)
  · intro s hknown hunknown
    obtain ⟨slot, hslot, hs⟩ := List.mem_filterMap.mp hknown
    obtain ⟨e, -, rfl⟩ := List.mem_map.mp hunknown
    rw [← (slot_of_setting? hs).1] at hslot
    exact absurd hslot (by simp [Setting.slot, knownSlots])

/-- No slot is written twice. -/
theorem nodup_slots (c : Constraints) : (c.settings.map Setting.slot).Nodup := by
  refine List.Nodup.map_on (fun s hs t ht h => ?_) c.nodup_settings
  rw [mem_settings] at hs ht
  rw [h, ht] at hs
  exact (Option.some.inj hs).symm

/-- Constraints are what their settings make of none. -/
theorem applyAll_settings (c : Constraints) : applyAll {} c.settings = c := by
  refine ext_setting? fun slot => ?_
  cases hslot : c.setting? slot with
  | none =>
      have hothers : ∀ s ∈ c.settings, s.slot ≠ slot := by
        rintro s hs rfl
        simp [mem_settings.mp hs] at hslot
      rw [setting?_applyAll_of_forall_ne hothers, setting?_default]
  | some s =>
      obtain ⟨rfl, heffective⟩ := slot_of_setting? hslot
      have honly : ∀ t ∈ c.settings, t.slot = s.slot → t = s := by
        intro t ht h
        rw [mem_settings, h, hslot] at ht
        exact (Option.some.inj ht).symm
      rw [setting?_applyAll_of_mem (mem_settings.mpr hslot) honly, heffective]

/-! ## Writing and reading -/

/-- The settings of constraints that were read are readable. -/
theorem isReadable_of_parse {text : String} {c : Constraints} (h : parse text = .ok c) :
    ∀ s ∈ c.settings, s.IsReadable := by
  intro s hs
  obtain ⟨reads, hreads, -, rfl⟩ := parse_eq_ok_iff.mp h
  rcases mem_of_setting?_applyAll (mem_settings.mp hs) with hmem | hdefault
  · obtain ⟨⟨key, s⟩, hr, rfl⟩ := List.mem_map.mp hmem
    obtain ⟨word, hword, hread⟩ := exists_of_mem_right hreads hr
    exact isReadable_of_readPair (mem_words hword).2 hread
  · simp [setting?_default] at hdefault

/-- Constraints whose settings are readable are read back. -/
theorem parse_render_of_isReadable {c : Constraints} (h : ∀ s ∈ c.settings, s.IsReadable) :
    parse c.render = .ok c := by
  have hwords : words c.render.toList = c.settings.map Setting.pair := by
    rw [render, String.toList_ofList, pairs_eq, words_joinWith]
    intro w hw
    obtain ⟨s, hs, rfl⟩ := List.mem_map.mp hw
    exact (h s hs).pair_word
  refine parse_eq_ok_iff.mpr ⟨c.settings.map fun s => (s.slot.key, s), ?_, ?_, ?_⟩
  · rw [hwords, List.forall₂_map_left_iff, List.forall₂_map_right_iff, List.forall₂_same]
    exact fun s hs => (h s hs).readPair_pair
  · have hkeys : ((c.settings.map fun s => (s.slot.key, s)).map (·.1)).map Slot.ofKey =
        c.settings.map Setting.slot := by
      simp only [List.map_map]
      exact List.map_congr_left fun s hs => (h s hs).isNamed.ofKey_key
    exact .of_map Slot.ofKey (hkeys ▸ c.nodup_slots)
  · simp [Function.comp_def, applyAll_settings]

/-- Constraints are kept by writing them, and the text shown for constraints is a fixed point. -/
theorem parse_render {text : String} {c : Constraints} (h : parse text = .ok c) :
    parse c.render = .ok c ∧ Details.constraintsText text = c.render ∧
      Details.constraintsText c.render = c.render := by
  have hback : parse c.render = .ok c := parse_render_of_isReadable (isReadable_of_parse h)
  refine ⟨hback, ?_, ?_⟩
  · rw [Details.constraintsText, h]
  · rw [Details.constraintsText, hback]

theorem parse_render_saturatedSize :
    let c : Constraints :=
      { cores := some 7, mem := some maxSize, rootDisk := some 3072, tags := ["a", "b"],
        unknown := .insert .empty "x.y" "" }
    parse "x.y=  tags=,a,,b root-disk=3071.5 cpu-cores=+7 arch= mem=1e30" = .ok c ∧
      parse c.render = .ok c ∧
      Details.constraintsText "x.y=  tags=,a,,b root-disk=3071.5 cpu-cores=+7 arch= mem=1e30" =
        c.render ∧
      Details.constraintsText c.render = c.render := by
  intro c
  have h : parse "x.y=  tags=,a,,b root-disk=3071.5 cpu-cores=+7 arch= mem=1e30" = .ok c := by
    decide +kernel
  exact ⟨h, parse_render h⟩

end BundleCheck.Constraints
