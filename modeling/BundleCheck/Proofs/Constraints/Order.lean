import BundleCheck.Proofs.Constraints.Settings
import BundleCheck.Proofs.Text

/-! # Constraints and the order of their pairs

No key comes twice in a text that is read, so a slot with one key is set at most once, and the order
of the pairs does not matter for it. The number of cores has two keys. Where a text gives different
numbers under them, the later pair overwrites the earlier one. -/

namespace BundleCheck.Constraints

open Text

/-! ## Statements about texts -/

/-- The second text has the pairs of the first one in some order. -/
def SamePairs (text other : String) : Prop :=
  (words text.toList).Perm (words other.toList)

/-- A pair of the text gives the number of cores as `n`. -/
def GivesCores (text : String) (n : Nat) : Prop :=
  ∃ pair ∈ words text.toList, ∃ key value, splitPair pair = .ok (key, value) ∧
    (key = "cores" ∨ key = "cpu-cores") ∧ readNumber key value = .ok n

/-- The text does not give two numbers of cores. -/
def CoresAgree (text : String) : Prop :=
  ∀ n m, GivesCores text n → GivesCores text m → n = m

/-- Reading the pair on top of the constraints changes nothing: the pair is in force. -/
def Holds (c : Constraints) (pair : List Char) : Prop :=
  (splitPair pair >>= fun part => c.set part.1 part.2) = .ok c

/-! ## One key for a slot -/

/-- A slot other than the cores is named by its key alone. -/
theorem key_ofKey {key : String} (h : Slot.ofKey key ≠ .number .cores) :
    (Slot.ofKey key).key = key := by
  unfold Slot.ofKey at h ⊢
  split <;> simp_all [Slot.key]

theorem ofKey_eq_cores_iff {key : String} :
    Slot.ofKey key = .number .cores ↔ key = "cores" ∨ key = "cpu-cores" := by
  constructor
  · intro h
    unfold Slot.ofKey at h
    split at h <;> simp_all
  · rintro (rfl | rfl) <;> rfl

theorem readPair_eq_ok_cores_iff {pair : List Char} {key : String} {n : Nat} :
    readPair pair = .ok (key, .number .cores n) ↔
      ∃ value, splitPair pair = .ok (key, value) ∧ (key = "cores" ∨ key = "cpu-cores") ∧
        readNumber key value = .ok n := by
  rw [readPair_eq_ok_iff]
  refine exists_congr fun value => and_congr_right fun _ => ?_
  rw [← ofKey_eq_cores_iff]
  constructor
  · intro h
    have hslot : Slot.ofKey key = .number .cores := (slot_of_read h).symm
    rw [hslot] at h
    obtain ⟨m, hm, heq⟩ := map_eq_ok_iff.mp h
    cases heq
    exact ⟨hslot, hm⟩
  · rintro ⟨hslot, hn⟩
    rw [hslot]
    exact map_eq_ok_iff.mpr ⟨n, hn, rfl⟩

/-- What a text gives for the cores are the settings of this slot that are read from its pairs. -/
theorem givesCores_iff {text : String} {n : Nat} :
    GivesCores text n ↔
      ∃ pair ∈ words text.toList, ∃ key, readPair pair = .ok (key, .number .cores n) := by
  simp only [readPair_eq_ok_cores_iff, GivesCores]

theorem eq_number_of_slot {s : Setting} {field : NumberField} (h : s.slot = .number field) :
    ∃ n, s = .number field n := by
  cases s with
  | number field n =>
      cases h
      exact ⟨n, rfl⟩
  | _ => cases h

/-- Settings of one slot are equal, if the numbers of cores are: any other slot is set by one pair
alone. -/
theorem eq_of_slot_eq {text : String} {reads : List (String × Setting)}
    (hreads : List.Forall₂ (fun pair r => readPair pair = .ok r) (words text.toList) reads)
    (hnodup : (reads.map (·.1)).Nodup) {s t : Setting} (hs : s ∈ reads.map (·.2))
    (ht : t ∈ reads.map (·.2)) (hslot : s.slot = t.slot)
    (hcores : s.slot = .number .cores → CoresAgree text) : s = t := by
  obtain ⟨⟨key, s⟩, hkey, rfl⟩ := List.mem_map.mp hs
  obtain ⟨⟨key', t⟩, hkey', rfl⟩ := List.mem_map.mp ht
  obtain ⟨pair, hpair, hread⟩ := exists_of_mem_right hreads hkey
  obtain ⟨pair', hpair', hread'⟩ := exists_of_mem_right hreads hkey'
  simp only at hslot hcores ⊢
  by_cases hs : s.slot = .number .cores
  · obtain ⟨n, rfl⟩ := eq_number_of_slot hs
    obtain ⟨m, rfl⟩ := eq_number_of_slot (hslot ▸ hs)
    rw [hcores hs n m (givesCores_iff.mpr ⟨pair, hpair, key, hread⟩)
      (givesCores_iff.mpr ⟨pair', hpair', key', hread'⟩)]
  · have hof : s.slot = Slot.ofKey key := slot_of_readPair hread
    have hof' : s.slot = Slot.ofKey key' := hslot.trans (slot_of_readPair hread')
    have hsame : key = key' := by
      calc key = (Slot.ofKey key).key := (key_ofKey (hof ▸ hs)).symm
        _ = (Slot.ofKey key').key := by rw [← hof, hof']
        _ = key' := key_ofKey (hof' ▸ hs)
    exact congrArg Prod.snd (List.inj_on_of_nodup_map hnodup hkey hkey' hsame)

/-! ## Permuted texts -/

/-- A slot that is given one setting observes the same in every order. -/
theorem setting?_applyAll_perm {c : Constraints} {settings settings' : List Setting}
    (hperm : settings.Perm settings') {slot : Slot}
    (honly : ∀ s ∈ settings, ∀ t ∈ settings, s.slot = slot → t.slot = slot → s = t) :
    (c.applyAll settings).setting? slot = (c.applyAll settings').setting? slot := by
  by_cases hset : ∃ s ∈ settings, s.slot = slot
  · obtain ⟨s, hs, rfl⟩ := hset
    rw [setting?_applyAll_of_mem hs fun t ht h => honly t ht s hs h rfl,
      setting?_applyAll_of_mem (hperm.mem_iff.mp hs) fun t ht h =>
        honly t (hperm.mem_iff.mpr ht) s hs h rfl]
  · have hothers : ∀ s ∈ settings, s.slot ≠ slot := fun s hs h => hset ⟨s, hs, h⟩
    rw [setting?_applyAll_of_forall_ne hothers,
      setting?_applyAll_of_forall_ne fun s hs => hothers s (hperm.mem_iff.mpr hs)]

/-- A text with the same pairs is read by the same settings in some order. -/
theorem parse_of_samePairs {text other : String} {reads : List (String × Setting)}
    (hsame : SamePairs text other)
    (hreads : List.Forall₂ (fun pair r => readPair pair = .ok r) (words text.toList) reads)
    (hnodup : (reads.map (·.1)).Nodup) :
    ∃ reads', reads.Perm reads' ∧ parse other = .ok (applyAll {} (reads'.map (·.2))) := by
  obtain ⟨reads', hreads', hperm⟩ := List.perm_comp_forall₂ hsame.symm hreads
  refine ⟨reads', hperm.symm, parse_eq_ok_iff.mpr ⟨reads', hreads', ?_, rfl⟩⟩
  exact (hperm.map _).nodup_iff.mpr hnodup

theorem setting?_withCores (c : Constraints) (n : Option Nat) {slot : Slot}
    (h : slot ≠ .number .cores) : { c with cores := n }.setting? slot = c.setting? slot := by
  rcases slot with (_ | _) | (_ | _) | (_ | _ | _ | _ | _) | _ | (_ | _ | _) | _ <;>
    first | rfl | exact absurd rfl h

/-- A text with the same pairs is read, and differs in the cores at most. -/
theorem exists_parse_of_samePairs {text other : String} {c : Constraints}
    (h : parse text = .ok c) (hsame : SamePairs text other) :
    ∃ d, parse other = .ok d ∧ d = { c with cores := d.cores } ∧ (CoresAgree text → d = c) := by
  obtain ⟨reads, hreads, hnodup, rfl⟩ := parse_eq_ok_iff.mp h
  obtain ⟨reads', hperm, hother⟩ := parse_of_samePairs hsame hreads hnodup
  have hslot : ∀ slot, (slot = .number .cores → CoresAgree text) →
      (applyAll {} (reads'.map (·.2))).setting? slot =
        (applyAll {} (reads.map (·.2))).setting? slot := by
    intro slot hcores
    refine (setting?_applyAll_perm (hperm.map _) fun s hs t ht h h' => ?_).symm
    exact eq_of_slot_eq hreads hnodup hs ht (h.trans h'.symm) (h ▸ hcores)
  refine ⟨_, hother, ext_setting? fun slot => ?_, fun hagree => ext_setting? fun slot => ?_⟩
  · by_cases hcores : slot = .number .cores
    · subst hcores
      rfl
    · exact (hslot slot fun h => absurd h hcores).trans (setting?_withCores _ _ hcores).symm
  · exact hslot slot fun _ => hagree

/-- Every number of cores that a text gives is the one that is read if its pair comes last. -/
theorem exists_samePairs_cores {text : String} {n : Nat} (h : GivesCores text n) :
    ∃ other, SamePairs text other ∧ ∀ d, parse other = .ok d → d.cores = some n := by
  obtain ⟨pair, hpair, key, hread⟩ := givesCores_iff.mp h
  obtain ⟨front, back, hwords⟩ := List.append_of_mem hpair
  have hperm : (words text.toList).Perm (front ++ back ++ [pair]) := by
    rw [hwords]
    exact List.perm_middle.trans (List.perm_append_singleton pair (front ++ back)).symm
  have hother : words (joinWith [' '] (front ++ back ++ [pair])) = front ++ back ++ [pair] :=
    words_joinWith fun w hw => mem_words (hperm.mem_iff.mpr hw)
  refine ⟨String.ofList (joinWith [' '] (front ++ back ++ [pair])), ?_, fun d hd => ?_⟩
  · rwa [SamePairs, String.toList_ofList, hother]
  · obtain ⟨reads, hreads, -, rfl⟩ := parse_eq_ok_iff.mp hd
    rw [String.toList_ofList, hother] at hreads
    have hbackwards := List.forall₂_reverse_iff.mpr hreads
    rw [List.reverse_append, List.reverse_singleton, List.singleton_append] at hbackwards
    obtain ⟨r, rest, hr, -, hrest⟩ := List.forall₂_cons_left_iff.mp hbackwards
    obtain rfl : (key, Setting.number .cores n) = r := Except.ok.inj (hread.symm.trans hr)
    rw [List.reverse_eq_cons_iff.mp hrest, List.map_append, applyAll, List.foldl_append]
    rfl

/-- A pair that is in force gives the number of cores that was read. -/
theorem cores_of_holds {c : Constraints} {text : String} {n : Nat} (h : GivesCores text n)
    (hholds : ∀ pair ∈ words text.toList, c.Holds pair) : c.cores = some n := by
  obtain ⟨pair, hpair, key, hread⟩ := givesCores_iff.mp h
  obtain ⟨value, hsplit, hvalue⟩ := readPair_eq_ok_iff.mp hread
  have hset := hholds pair hpair
  rw [Holds, hsplit, ok_bind, set_eq, hvalue] at hset
  exact congrArg Constraints.cores (Except.ok.inj hset).symm

/-- If a text does not give two numbers of cores, all its pairs are in force. -/
theorem holds_of_coresAgree {text : String} {c : Constraints} (h : parse text = .ok c)
    (hagree : CoresAgree text) : ∀ pair ∈ words text.toList, c.Holds pair := by
  obtain ⟨reads, hreads, hnodup, rfl⟩ := parse_eq_ok_iff.mp h
  intro pair hpair
  obtain ⟨⟨key, s⟩, hr, hread⟩ := exists_of_mem_right hreads.flip hpair
  have hs : s ∈ reads.map (·.2) := List.mem_map_of_mem hr
  obtain ⟨value, hsplit, hvalue⟩ := readPair_eq_ok_iff.mp hread
  rw [Holds, hsplit, ok_bind, set_eq, hvalue]
  refine congrArg Except.ok (ext_setting? fun slot => ?_)
  by_cases hslot : s.slot = slot
  · subst hslot
    rw [setting?_apply_self, setting?_applyAll_of_mem hs]
    exact fun t ht h => eq_of_slot_eq hreads hnodup ht hs h fun _ => hagree
  · exact setting?_apply_of_ne _ hslot

/-! ## The order of pairs -/

/-- Whether a text is read does not depend on the order of its pairs, and what is read does not
either, but for the number of cores. All of it does not, and no pair is overwritten, exactly if the
text does not give two numbers of cores. -/
theorem parse_samePairs (text : String) :
    (∀ other, SamePairs text other → ((∃ c, parse text = .ok c) ↔ ∃ d, parse other = .ok d)) ∧
      ∀ c, parse text = .ok c →
        (∀ other d, SamePairs text other → parse other = .ok d →
          d = { c with cores := d.cores }) ∧
        ((∀ other, SamePairs text other → parse other = .ok c) ↔ CoresAgree text) ∧
        ((∀ pair ∈ words text.toList, c.Holds pair) ↔ CoresAgree text) := by
  refine ⟨fun other hsame => ⟨fun ⟨c, hc⟩ => ?_, fun ⟨d, hd⟩ => ?_⟩, fun c hc => ⟨?_, ?_, ?_⟩⟩
  · obtain ⟨d, hd, -⟩ := exists_parse_of_samePairs hc hsame
    exact ⟨d, hd⟩
  · obtain ⟨c, hc, -⟩ := exists_parse_of_samePairs hd hsame.symm
    exact ⟨c, hc⟩
  · intro other d hsame hd
    obtain ⟨d', hd', heq, -⟩ := exists_parse_of_samePairs hc hsame
    rw [hd] at hd'
    cases hd'
    exact heq
  · constructor
    · intro hall n m hn hm
      obtain ⟨other, hsame, hcores⟩ := exists_samePairs_cores hn
      obtain ⟨other', hsame', hcores'⟩ := exists_samePairs_cores hm
      have hnm := (hcores c (hall other hsame)).symm.trans (hcores' c (hall other' hsame'))
      exact Option.some.inj hnm
    · intro hagree other hsame
      obtain ⟨d, hd, -, heq⟩ := exists_parse_of_samePairs hc hsame
      rw [hd, heq hagree]
  · constructor
    · intro hholds n m hn hm
      exact Option.some.inj ((cores_of_holds hn hholds).symm.trans (cores_of_holds hm hholds))
    · exact holds_of_coresAgree hc

/-- A number of cores that is given twice alike is read in every order. -/
theorem parse_samePairs_sameCores :
    parse "cores=2 mem=1G cpu-cores=+2" = .ok { cores := some 2, mem := some 1024 } ∧
      parse "cpu-cores=+2 cores=2 mem=1G" = .ok { cores := some 2, mem := some 1024 } := by
  have hread : parse "cores=2 mem=1G cpu-cores=+2" =
      .ok { cores := some 2, mem := some 1024 } := by
    decide +kernel
  obtain ⟨-, hparse⟩ := parse_samePairs "cores=2 mem=1G cpu-cores=+2"
  obtain ⟨-, horder, hholds⟩ := hparse _ hread
  have hsame : SamePairs "cores=2 mem=1G cpu-cores=+2" "cpu-cores=+2 cores=2 mem=1G" := by
    unfold SamePairs
    decide +kernel
  have hforce : ∀ pair ∈ words "cores=2 mem=1G cpu-cores=+2".toList,
      Holds { cores := some 2, mem := some 1024 } pair := by
    unfold Holds
    decide +kernel
  exact ⟨hread, horder.mpr (hholds.mp hforce) _ hsame⟩

/-- Two numbers of cores are both accepted, and the later one is read. -/
theorem cores_overwritten :
    SamePairs "cores=1 cpu-cores=2" "cpu-cores=2 cores=1" ∧
      parse "cores=1 cpu-cores=2" = .ok { cores := some 2 } ∧
      parse "cpu-cores=2 cores=1" = .ok { cores := some 1 } := by
  unfold SamePairs
  decide +kernel

end BundleCheck.Constraints
