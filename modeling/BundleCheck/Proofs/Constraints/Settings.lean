import BundleCheck.Constraints
import BundleCheck.Proofs.Except
import BundleCheck.Proofs.SortedMap

/-! # Constraint texts as lists of settings

A pair of a constraint text is read, by its key alone, as a setting, and settings are made one after
the other. What constraints hold is observed slot by slot: a setting decides its own slot and leaves
every other one alone. -/

namespace BundleCheck.Constraints

open Text

/-! ## Slots and settings -/

inductive SizeField
  | mem
  | rootDisk
  deriving DecidableEq

inductive NumberField
  | cores
  | cpuPower
  deriving DecidableEq

inductive TextField
  | rootDiskSource
  | arch
  | container
  | virtType
  | instanceType
  deriving DecidableEq

inductive ListField
  | tags
  | spaces
  | zones
  deriving DecidableEq

inductive Slot
  | size (field : SizeField)
  | number (field : NumberField)
  | text (field : TextField)
  | publicIp
  | list (field : ListField)
  | unknown (key : String)
  deriving DecidableEq

/-- A slot with the value that a pair gives it. -/
inductive Setting
  | size (field : SizeField) (n : Nat)
  | number (field : NumberField) (n : Nat)
  | text (field : TextField) (s : Option String)
  | publicIp (b : Bool)
  | list (field : ListField) (items : List String)
  | unknown (key value : String)
  deriving DecidableEq

/-- The slot of a key; two keys count cores. -/
def Slot.ofKey : String → Slot
  | "mem" => .size .mem
  | "root-disk" => .size .rootDisk
  | "root-disk-source" => .text .rootDiskSource
  | "cores" => .number .cores
  | "cpu-cores" => .number .cores
  | "cpu-power" => .number .cpuPower
  | "arch" => .text .arch
  | "container" => .text .container
  | "virt-type" => .text .virtType
  | "instance-type" => .text .instanceType
  | "allocate-public-ip" => .publicIp
  | "tags" => .list .tags
  | "spaces" => .list .spaces
  | "zones" => .list .zones
  | key => .unknown key

/-- The key under which a slot is written. -/
def Slot.key : Slot → String
  | .size .mem => "mem"
  | .size .rootDisk => "root-disk"
  | .number .cores => "cores"
  | .number .cpuPower => "cpu-power"
  | .text .rootDiskSource => "root-disk-source"
  | .text .arch => "arch"
  | .text .container => "container"
  | .text .virtType => "virt-type"
  | .text .instanceType => "instance-type"
  | .publicIp => "allocate-public-ip"
  | .list .tags => "tags"
  | .list .spaces => "spaces"
  | .list .zones => "zones"
  | .unknown key => key

def Slot.read (key : String) (value : List Char) : Slot → Except ConstraintsError Setting
  | .size field => (readSize key value).map (.size field)
  | .number field => (readNumber key value).map (.number field)
  | .text field => .ok (.text field (text? value))
  | .publicIp => (readBool key value).map .publicIp
  | .list field => .ok (.list field (items value))
  | .unknown key => .ok (.unknown key (String.ofList value))

namespace Setting

def slot : Setting → Slot
  | .size field _ => .size field
  | .number field _ => .number field
  | .text field _ => .text field
  | .publicIp _ => .publicIp
  | .list field _ => .list field
  | .unknown key _ => .unknown key

def apply (c : Constraints) : Setting → Constraints
  | .size .mem n => { c with mem := some n }
  | .size .rootDisk n => { c with rootDisk := some n }
  | .number .cores n => { c with cores := some n }
  | .number .cpuPower n => { c with cpuPower := some n }
  | .text .rootDiskSource s => { c with rootDiskSource := s }
  | .text .arch s => { c with arch := s }
  | .text .container s => { c with container := s }
  | .text .virtType s => { c with virtType := s }
  | .text .instanceType s => { c with instanceType := s }
  | .publicIp b => { c with allocatePublicIp := some b }
  | .list .tags items => { c with tags := items }
  | .list .spaces items => { c with spaces := items }
  | .list .zones items => { c with zones := items }
  | .unknown key value => { c with unknown := c.unknown.insert key value }

/-- A setting, unless its value is as good as none. -/
def effective? : Setting → Option Setting
  | .text _ none => none
  | .list _ [] => none
  | s => some s

end Setting

/-! ## Observing constraints -/

def setting? (c : Constraints) : Slot → Option Setting
  | .size .mem => c.mem.map (.size .mem)
  | .size .rootDisk => c.rootDisk.map (.size .rootDisk)
  | .number .cores => c.cores.map (.number .cores)
  | .number .cpuPower => c.cpuPower.map (.number .cpuPower)
  | .text .rootDiskSource => (Setting.text .rootDiskSource c.rootDiskSource).effective?
  | .text .arch => (Setting.text .arch c.arch).effective?
  | .text .container => (Setting.text .container c.container).effective?
  | .text .virtType => (Setting.text .virtType c.virtType).effective?
  | .text .instanceType => (Setting.text .instanceType c.instanceType).effective?
  | .publicIp => c.allocatePublicIp.map .publicIp
  | .list .tags => (Setting.list .tags c.tags).effective?
  | .list .spaces => (Setting.list .spaces c.spaces).effective?
  | .list .zones => (Setting.list .zones c.zones).effective?
  | .unknown key => (c.unknown.get? key).map (.unknown key)

namespace Setting

theorem effective?_text_inj {field : TextField} {s t : Option String} :
    (text field s).effective? = (text field t).effective? ↔ s = t := by
  cases s <;> cases t <;> simp [effective?]

theorem effective?_list_inj {field : ListField} {xs ys : List String} :
    (list field xs).effective? = (list field ys).effective? ↔ xs = ys := by
  cases xs <;> cases ys <;> simp [effective?]

theorem eq_of_effective? {s t : Setting} (h : s.effective? = some t) : t = s := by
  unfold effective? at h
  split at h <;> simp_all

end Setting

/-- Nothing is set by default. -/
theorem setting?_default (slot : Slot) : ({} : Constraints).setting? slot = none := by
  rcases slot with (_ | _) | (_ | _) | (_ | _ | _ | _ | _) | _ | (_ | _ | _) | _ <;> rfl

/-- Constraints are known by their settings. -/
theorem ext_setting? {c d : Constraints} (h : ∀ slot, c.setting? slot = d.setting? slot) :
    c = d := by
  have htext := fun field => h (.text field)
  have hlist := fun field => h (.list field)
  have hunknown : c.unknown = d.unknown := by
    refine SortedMap.ext_get? fun key => ?_
    exact Option.map_injective (fun _ _ => by simp) (h (.unknown key))
  cases c
  cases d
  simp only [Constraints.mk.injEq]
  refine ⟨Option.map_injective (fun _ _ => by simp) (h (.size .mem)),
    Option.map_injective (fun _ _ => by simp) (h (.size .rootDisk)),
    Setting.effective?_text_inj.mp (htext .rootDiskSource),
    Option.map_injective (fun _ _ => by simp) (h (.number .cores)),
    Option.map_injective (fun _ _ => by simp) (h (.number .cpuPower)),
    Setting.effective?_text_inj.mp (htext .arch),
    Setting.effective?_text_inj.mp (htext .container),
    Setting.effective?_text_inj.mp (htext .virtType),
    Setting.effective?_text_inj.mp (htext .instanceType),
    Option.map_injective (fun _ _ => by simp) (h .publicIp),
    Setting.effective?_list_inj.mp (hlist .tags), Setting.effective?_list_inj.mp (hlist .spaces),
    Setting.effective?_list_inj.mp (hlist .zones), hunknown⟩

/-- A setting decides its own slot. -/
theorem setting?_apply_self (c : Constraints) (s : Setting) :
    (s.apply c).setting? s.slot = s.effective? := by
  cases s with
  | size field n => cases field <;> rfl
  | number field n => cases field <;> rfl
  | text field s => cases field <;> rfl
  | publicIp b => rfl
  | list field items => cases field <;> rfl
  | unknown key value =>
      simp [Setting.apply, Setting.slot, setting?, Setting.effective?, SortedMap.get?_insert]

/-- A setting leaves the other slots alone. -/
theorem setting?_apply_of_ne (c : Constraints) {s : Setting} {slot : Slot} (h : s.slot ≠ slot) :
    (s.apply c).setting? slot = c.setting? slot := by
  cases s with
  | unknown key value =>
      rcases slot with (_ | _) | (_ | _) | (_ | _ | _ | _ | _) | _ | (_ | _ | _) | other
      case unknown =>
        have hkey : key ≠ other := fun he => h (he ▸ rfl)
        simp [Setting.apply, setting?, SortedMap.get?_insert, hkey]
      all_goals rfl
  | _ field =>
      cases field <;>
        rcases slot with (_ | _) | (_ | _) | (_ | _ | _ | _ | _) | _ | (_ | _ | _) | _ <;>
        first | rfl | exact absurd rfl h

/-! ## Runs of settings -/

def applyAll (c : Constraints) (settings : List Setting) : Constraints :=
  settings.foldl Setting.apply c

/-- A slot that no setting names stays as it was. -/
theorem setting?_applyAll_of_forall_ne {c : Constraints} {settings : List Setting} {slot : Slot}
    (h : ∀ s ∈ settings, s.slot ≠ slot) :
    (c.applyAll settings).setting? slot = c.setting? slot := by
  induction settings generalizing c with
  | nil => rfl
  | cons s settings ih =>
      rw [applyAll, List.foldl_cons]
      refine (ih fun t ht => h t (by simp [ht])).trans ?_
      exact setting?_apply_of_ne c (h s (by simp))

/-- A slot that all settings of it give the same value has this value. -/
theorem setting?_applyAll_of_mem {c : Constraints} {settings : List Setting} {s : Setting}
    (hs : s ∈ settings) (h : ∀ t ∈ settings, t.slot = s.slot → t = s) :
    (c.applyAll settings).setting? s.slot = s.effective? := by
  induction settings generalizing c with
  | nil => cases hs
  | cons t settings ih =>
      rw [applyAll, List.foldl_cons]
      by_cases hlater : s ∈ settings
      · exact ih hlater fun u hu => h u (by simp [hu])
      · have hts : s = t := by simpa [hlater] using hs
        have hothers : ∀ u ∈ settings, u.slot ≠ s.slot := fun u hu he =>
          hlater (h u (by simp [hu]) he ▸ hu)
        refine (setting?_applyAll_of_forall_ne hothers).trans ?_
        rw [hts, setting?_apply_self]

/-- What is set in the end was set by some setting, or before. -/
theorem mem_of_setting?_applyAll {c : Constraints} {settings : List Setting} {slot : Slot}
    {s : Setting} (h : (c.applyAll settings).setting? slot = some s) :
    s ∈ settings ∨ c.setting? slot = some s := by
  induction settings generalizing c with
  | nil => exact .inr h
  | cons t settings ih =>
      rw [applyAll, List.foldl_cons] at h
      rcases ih h with hs | hs
      · exact .inl (by simp [hs])
      · by_cases ht : t.slot = slot
        · subst ht
          rw [setting?_apply_self] at hs
          simp [Setting.eq_of_effective? hs]
        · exact .inr (by rwa [setting?_apply_of_ne c ht] at hs)

/-! ## Reading -/

/-- Setting what a key stands for is reading the setting of its slot, and making it. -/
theorem set_eq (c : Constraints) (key : String) (value : List Char) :
    c.set key value = ((Slot.ofKey key).read key value).map (Setting.apply c) := by
  unfold set
  split
  case h_1 | h_2 => cases h : readSize _ value <;> simp [Slot.ofKey, Slot.read, h] <;> rfl
  case h_4 | h_5 | h_6 => cases h : readNumber _ value <;> simp [Slot.ofKey, Slot.read, h] <;> rfl
  case h_11 => cases h : readBool _ value <;> simp [Slot.ofKey, Slot.read, h] <;> rfl
  case h_15 => rw [Slot.ofKey] <;> first | rfl | assumption
  all_goals rfl

/-- Reads a pair as the setting of the slot that its key names. -/
def readPair (pair : List Char) : Except ConstraintsError (String × Setting) := do
  let (key, value) ← splitPair pair
  let s ← (Slot.ofKey key).read key value
  return (key, s)

theorem readPair_eq_ok_iff {pair : List Char} {key : String} {s : Setting} :
    readPair pair = .ok (key, s) ↔
      ∃ value, splitPair pair = .ok (key, value) ∧ (Slot.ofKey key).read key value = .ok s := by
  simp only [readPair, bind_eq_ok_iff]
  constructor
  · rintro ⟨⟨key', value⟩, hsplit, s', hs, h⟩
    cases h
    exact ⟨value, hsplit, hs⟩
  · rintro ⟨value, hsplit, hs⟩
    exact ⟨(key, value), hsplit, s, hs, rfl⟩

/-- What is read for a slot is a setting of this slot. -/
theorem slot_of_read {key : String} {value : List Char} {slot : Slot} {s : Setting}
    (h : slot.read key value = .ok s) : s.slot = slot := by
  cases slot with
  | text field => cases h; rfl
  | list field => cases h; rfl
  | unknown key => cases h; rfl
  | _ =>
      obtain ⟨x, -, rfl⟩ := map_eq_ok_iff.mp h
      rfl

theorem slot_of_readPair {pair : List Char} {key : String} {s : Setting}
    (h : readPair pair = .ok (key, s)) : s.slot = Slot.ofKey key := by
  obtain ⟨value, -, hs⟩ := readPair_eq_ok_iff.mp h
  exact slot_of_read hs

/-- A pair is accepted exactly if it is read as a setting under a new key, and then it is made. -/
theorem parsePairs_cons_eq_ok_iff {seen : List String} {c d : Constraints} {pair : List Char}
    {pairs : List (List Char)} :
    parsePairs seen c (pair :: pairs) = .ok d ↔
      ∃ key s, readPair pair = .ok (key, s) ∧ key ∉ seen ∧
        parsePairs (seen ++ [key]) (s.apply c) pairs = .ok d := by
  rw [parsePairs, bind_eq_ok_iff]
  constructor
  · rintro ⟨⟨key, value⟩, hsplit, h⟩
    simp only at h
    split at h
    · cases h
    next hseen =>
      obtain ⟨next, hnext, h⟩ := bind_eq_ok_iff.mp h
      rw [set_eq] at hnext
      obtain ⟨s, hs, rfl⟩ := map_eq_ok_iff.mp hnext
      exact ⟨key, s, readPair_eq_ok_iff.mpr ⟨value, hsplit, hs⟩, by simpa using hseen, h⟩
  · rintro ⟨key, s, hread, hseen, h⟩
    obtain ⟨value, hsplit, hs⟩ := readPair_eq_ok_iff.mp hread
    have hcontains : seen.contains key = false := by simpa using hseen
    refine ⟨(key, value), hsplit, ?_⟩
    simp only [hcontains, Bool.false_eq_true, if_false, set_eq, hs, Except.map, ok_bind]
    exact h

/-- Pairs are read in order exactly if each is read as a setting and no key comes twice. -/
theorem parsePairs_eq_ok_iff {seen : List String} {c d : Constraints} {pairs : List (List Char)} :
    parsePairs seen c pairs = .ok d ↔
      ∃ reads, List.Forall₂ (fun pair r => readPair pair = .ok r) pairs reads ∧
        (reads.map (·.1)).Nodup ∧ (∀ r ∈ reads, r.1 ∉ seen) ∧
        d = c.applyAll (reads.map (·.2)) := by
  induction pairs generalizing seen c with
  | nil => simp [parsePairs, applyAll, eq_comm]
  | cons pair pairs ih =>
      simp only [parsePairs_cons_eq_ok_iff, ih]
      constructor
      · rintro ⟨key, s, hread, hseen, reads, hreads, hnodup, hnew, rfl⟩
        have hfirst : key ∉ reads.map (·.1) := by
          intro hmem
          obtain ⟨r, hr, rfl⟩ := List.mem_map.mp hmem
          exact hnew r hr (by simp)
        have hnew' : ∀ r ∈ (key, s) :: reads, r.1 ∉ seen :=
          List.forall_mem_cons.mpr ⟨hseen, fun r hr hmem => hnew r hr (by simp [hmem])⟩
        exact ⟨(key, s) :: reads, .cons hread hreads, List.nodup_cons.mpr ⟨hfirst, hnodup⟩, hnew',
          rfl⟩
      · rintro ⟨_, hreads, hnodup, hnew, rfl⟩
        cases hreads with
        | @cons _ r _ reads hread hreads =>
            obtain ⟨key, s⟩ := r
            obtain ⟨hfirst, hnodup⟩ := List.nodup_cons.mp hnodup
            obtain ⟨hseen, hnew⟩ := List.forall_mem_cons.mp hnew
            refine ⟨key, s, hread, hseen, reads, hreads, hnodup, fun r hr hmem => ?_, rfl⟩
            rcases List.mem_append.mp hmem with hmem | hmem
            · exact hnew r hr hmem
            · exact hfirst (List.mem_map.mpr ⟨r, hr, List.mem_singleton.mp hmem⟩)

/-- A text is read exactly if each of its pairs is read as a setting and no key comes twice. -/
theorem parse_eq_ok_iff {text : String} {c : Constraints} :
    parse text = .ok c ↔
      ∃ reads, List.Forall₂ (fun pair r => readPair pair = .ok r) (words text.toList) reads ∧
        (reads.map (·.1)).Nodup ∧ c = applyAll {} (reads.map (·.2)) := by
  simp [parse, parsePairs_eq_ok_iff]

end BundleCheck.Constraints
