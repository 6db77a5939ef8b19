import BundleCheck.Proofs.Overlay.Entries
import BundleCheck.Proofs.Overlay.Machines

/-! # Machines that a key names

A key of an overlay names the machines whose key has the same text, and the one that has this very
key. Merging a machine changes one that is named, and no other; and which one it changes does not
depend on the order of machines, as long as no two keys of the base have one text. -/

namespace BundleCheck.Overlay

open Yaml

/-! ## Named machines -/

/-- The key of an overlay names the key of a machine: both have one text, or they are one key. -/
def names (k b : Value) : Bool :=
  sameMachine b k || k.same b

theorem names_of_sameMachine {k b : Value} (h : sameMachine b k = true) : names k b = true := by
  simp [names, h]

theorem names_of_same {k b : Value} (h : k.same b = true) : names k b = true := by
  simp [names, h]

theorem sameMachine_symm {a b : Value} (h : sameMachine a b = true) : sameMachine b a = true := by
  obtain ⟨s, ha, hb⟩ := sameMachine_iff.mp h
  exact sameMachine_iff.mpr ⟨s, hb, ha⟩

theorem sameMachine_trans {a b c : Value} (hab : sameMachine a b = true)
    (hbc : sameMachine b c = true) : sameMachine a c = true := by
  obtain ⟨s, ha, hb⟩ := sameMachine_iff.mp hab
  obtain ⟨t, hb', hc⟩ := sameMachine_iff.mp hbc
  obtain rfl : s = t := Option.some.inj (hb.symm.trans hb')
  exact sameMachine_iff.mpr ⟨s, ha, hc⟩

/-- A machine is merged under a key with the same text, or else under its own one. -/
theorem machineKey_cases (m : Mapping) (k : Value) :
    (∃ c ∈ m, sameMachine c.1 k = true ∧ machineKey m k = c.1) ∨
      (∀ c ∈ m, sameMachine c.1 k = false) ∧ machineKey m k = k := by
  unfold machineKey
  cases hfind : m.find? fun b => sameMachine b.1 k with
  | none => exact .inr ⟨by simpa using hfind, rfl⟩
  | some c =>
      exact .inl ⟨c, List.mem_of_find?_eq_some hfind, by simpa using List.find?_some hfind, rfl⟩

theorem names_of_same_machineKey {m : Mapping} (hm : m.DistinctKeys) {k : Value}
    {b : Value × Value} (hb : b ∈ m) (h : (machineKey m k).same b.1 = true) :
    names k b.1 = true := by
  rcases machineKey_cases m k with ⟨c, hc, hck, hkey⟩ | ⟨-, hkey⟩
  · rw [hkey] at h
    rw [← hm.eq_of_same hc hb h]
    exact names_of_sameMachine hck
  · rw [hkey] at h
    exact names_of_same h

/-- A machine is stored under a key that is named. -/
theorem names_storedKey {m : Mapping} (hm : m.DistinctKeys) (k : Value) :
    names k (m.storedKey (machineKey m k)) = true := by
  rcases m.storedKey_cases (machineKey m k) with ⟨b, hb, hkb, hstored⟩ | ⟨hnone, hstored⟩
  · rw [hstored]
    exact names_of_same_machineKey hm hb hkb
  · rw [hstored]
    rcases machineKey_cases m k with ⟨c, -, hck, hkey⟩ | ⟨-, hkey⟩
    · rw [hkey]
      exact names_of_sameMachine hck
    · rw [hkey]
      exact names_of_same (Value.same_refl k)

theorem mem_mergeMachine_iff_part {m : Mapping} (hm : m.DistinctKeys) {e b : Value × Value}
    (he : e.1.DistinctKeys ∧ e.2.DistinctKeys) : b ∈ mergeMachine m e ↔
      (b ∈ m ∧ (machineKey m e.1).same b.1 = false) ∨
        IsMergedEntry m (machineKey m e.1, e.2) b := by
  rw [mergeMachine_eq m he.2, mem_mergePart_iff hm (distinctKeys_machineKey hm he.1)]

/-- Machines that an entry does not name stay as they are, and no such machines come. -/
theorem mem_mergeMachine_of_names_eq_false {m : Mapping} (hm : m.DistinctKeys)
    {e b : Value × Value} (he : e.1.DistinctKeys ∧ e.2.DistinctKeys)
    (hb : names e.1 b.1 = false) : b ∈ mergeMachine m e ↔ b ∈ m := by
  rw [mem_mergeMachine_iff_part hm he]
  constructor
  · rintro (⟨h, -⟩ | ⟨v, -, rfl⟩)
    · exact h
    · rw [names_storedKey hm e.1] at hb
      cases hb
  · intro h
    refine .inl ⟨h, Bool.eq_false_iff.mpr fun hsame => ?_⟩
    rw [names_of_same_machineKey hm h hsame] at hb
    cases hb

theorem mem_mergeMachines_of_names_eq_false {m new : Mapping} (hm : m.DistinctKeys)
    (hnew : ∀ e ∈ new, e.1.DistinctKeys ∧ e.2.DistinctKeys) {b : Value × Value}
    (hb : ∀ e ∈ new, names e.1 b.1 = false) : b ∈ new.foldl mergeMachine m ↔ b ∈ m := by
  induction new generalizing m with
  | nil => exact Iff.rfl
  | cons e es ih =>
      obtain ⟨he, hes⟩ := List.forall_mem_cons.mp hnew
      obtain ⟨hbe, hbes⟩ := List.forall_mem_cons.mp hb
      rw [List.foldl_cons, ih (distinctKeys_mergeMachine hm he) hes hbes,
        mem_mergeMachine_of_names_eq_false hm he hbe]

/-! ## Keys with one text -/

/-- At most one machine of a section has a key with the text of the given one. -/
def ListedOnce (m : Mapping) (k : Value) : Prop :=
  ∀ a ∈ m, ∀ b ∈ m, sameMachine a.1 k = true → sameMachine b.1 k = true → a = b

/-- A merge gives no text to a second key. -/
theorem ListedOnce.mergeMachine {m : Mapping} {k : Value} (h : ListedOnce m k)
    (hm : m.DistinctKeys) {e : Value × Value} (he : e.1.DistinctKeys ∧ e.2.DistinctKeys) :
    ListedOnce (mergeMachine m e) k := by
  -- The merged entry has the key of an entry that it replaces, or a text that was not there.
  have hdisjoint : ∀ a b : Value × Value, a ∈ m → (machineKey m e.1).same a.1 = false →
      IsMergedEntry m (machineKey m e.1, e.2) b → sameMachine a.1 k = true →
        ¬ sameMachine b.1 k = true := by
    rintro a b ha hea ⟨v, -, rfl⟩ hak hbk
    dsimp only at hbk
    rcases m.storedKey_cases (machineKey m e.1) with ⟨c, hc, hec, hstored⟩ | ⟨hnone, hstored⟩
    · rw [hstored] at hbk
      rw [h a ha c hc hak hbk, hec] at hea
      cases hea
    · rw [hstored] at hbk
      rcases machineKey_cases m e.1 with ⟨c, hc, -, hkey⟩ | ⟨hother, hkey⟩
      · have hself := hnone c hc
        rw [hkey, Value.same_refl] at hself
        cases hself
      · rw [hkey] at hbk
        have hae := hother a ha
        rw [sameMachine_trans hak (sameMachine_symm hbk)] at hae
        cases hae
  intro a ha b hb hak hbk
  rcases (mem_mergeMachine_iff_part hm he).mp ha with ⟨ha, hea⟩ | ha
  · rcases (mem_mergeMachine_iff_part hm he).mp hb with ⟨hb, -⟩ | hb
    · exact h a ha b hb hak hbk
    · exact absurd hbk (hdisjoint a b ha hea hb hak)
  · rcases (mem_mergeMachine_iff_part hm he).mp hb with ⟨hb, heb⟩ | hb
    · exact absurd hak (hdisjoint b a hb heb ha hbk)
    · obtain ⟨v, hv, rfl⟩ := ha
      obtain ⟨w, hw, rfl⟩ := hb
      obtain rfl : v = w := Option.some.inj (hv.symm.trans hw)
      rfl

/-- A key finds the machine that it names, if no other one has the text. -/
theorem ListedOnce.same_machineKey {m : Mapping} {j : Value} {b : Value × Value}
    (h : ListedOnce m b.1) (hb : b ∈ m) (hj : j.DistinctKeys) (hzero : isZeroKey b.1 = false)
    (hnames : names j b.1 = true) :
    (machineKey m j).same b.1 = true := by
  -- A key with the text of the given one has the text of the machine.
  have htext : ∀ {c : Value}, sameMachine c j = true → sameMachine c b.1 = true := by
    intro c hcj
    rcases Bool.or_eq_true_iff.mp hnames with hbj | hjb
    · exact sameMachine_trans hcj (sameMachine_symm hbj)
    · obtain ⟨s, hc, hs⟩ := sameMachine_iff.mp hcj
      have hbs := keyText?_eq_of_same hzero (Value.same_symm hj hjb)
      exact sameMachine_iff.mpr ⟨s, hc, hbs.trans hs⟩
  rcases machineKey_cases m j with ⟨c, hc, hcj, hkey⟩ | ⟨hnone, hkey⟩
  · have hcb := htext hcj
    have hbb := sameMachine_trans (sameMachine_symm hcb) hcb
    rw [hkey, h c hc b hb hcb hbb]
    exact Value.same_refl _
  · rw [hkey]
    rcases Bool.or_eq_true_iff.mp hnames with hbj | hjb
    · rw [hnone b hb] at hbj
      cases hbj
    · exact hjb

/-- Which machine is merged depends on the entries with the text of the key. -/
theorem machineKey_congr {m n : Mapping} {k : Value} (h : ListedOnce m k)
    (hmn : ∀ b : Value × Value, sameMachine b.1 k = true → (b ∈ m ↔ b ∈ n)) :
    machineKey m k = machineKey n k := by
  rcases machineKey_cases m k with ⟨c, hc, hck, hkey⟩ | ⟨hnone, hkey⟩
  · rcases machineKey_cases n k with ⟨d, hd, hdk, hkey'⟩ | ⟨hnone', -⟩
    · rw [hkey, hkey', h c hc d ((hmn d hdk).mpr hd) hck hdk]
    · rw [hnone' c ((hmn c hck).mp hc)] at hck
      cases hck
  · rcases machineKey_cases n k with ⟨d, hd, hdk, -⟩ | ⟨-, hkey'⟩
    · rw [hnone d ((hmn d hdk).mpr hd)] at hdk
      cases hdk
    · rw [hkey, hkey']

/-- What merging a machine gives depends on the order of machines in nothing but their order. -/
theorem orderless_mergeMachine (keys : List Value) : Orderless
    (fun m : Mapping => m.DistinctKeys ∧ ∀ k ∈ keys, ListedOnce m k)
    (fun e : Value × Value => (e.1.DistinctKeys ∧ e.2.DistinctKeys) ∧ e.1 ∈ keys)
    List.Perm mergeMachine where
  refl := List.Perm.refl
  trans := List.Perm.trans
  keeps := fun ⟨hm, honce⟩ ⟨he, _⟩ =>
    ⟨distinctKeys_mergeMachine hm he, fun k hk => (honce k hk).mergeMachine hm he⟩
  congr {m n e} := fun ⟨hm, honce⟩ ⟨hn, _⟩ ⟨he, hkey⟩ hperm => by
    rw [mergeMachine_eq m he.2, mergeMachine_eq n he.2,
      machineKey_congr (honce e.1 hkey) fun b _ => hperm.mem_iff]
    exact orderless_mergePart.congr hm hn ⟨distinctKeys_machineKey hn he.1, he.2⟩ hperm

/-! ## Keys that name no machine in common -/

def NamesApart (j k : Value) : Prop :=
  ∀ b : Value, names j b = true → names k b = false

/-- Keys with two names, neither of them a floating-point zero, name no machine in common. -/
theorem namesApart_of_nameSame {j k : Value} (hk : k.DistinctKeys) (hjzero : isZeroKey j = false)
    (hkzero : isZeroKey k = false) (h : nameSame j k = false) : NamesApart j k := by
  have hnames : ∀ {k b : Value}, isZeroKey k = false → names k b = true →
      nameSame k b = true := by
    intro k b hzero hkb
    rcases Bool.or_eq_true_iff.mp hkb with hbk | hkb
    · obtain ⟨s, hb, hs⟩ := sameMachine_iff.mp hbk
      exact (nameSame_of_keyText? hs).mpr hb
    · exact nameSame_of_same hzero hkb
  intro b hjb
  rw [Bool.eq_false_iff]
  intro hkb
  have hjk := nameSame_trans (hnames hjzero hjb) (nameSame_symm hk (hnames hkzero hkb))
  rw [h] at hjk
  cases hjk

theorem NamesApart.same_machineKey {m : Mapping} (hm : m.DistinctKeys) {j k : Value}
    (h : NamesApart j k) : (machineKey m j).same (machineKey m k) = false := by
  have hboth : ∀ {b : Value}, names j b = true → ¬ names k b = true := by
    intro b hj hk
    rw [h b hj] at hk
    cases hk
  rw [Bool.eq_false_iff]
  intro hsame
  rcases machineKey_cases m j with ⟨c, hc, hcj, hkeyj⟩ | ⟨-, hkeyj⟩
  · rcases machineKey_cases m k with ⟨d, hd, hdk, hkeyk⟩ | ⟨-, hkeyk⟩
    · rw [hkeyj, hkeyk] at hsame
      rw [hm.eq_of_same hc hd hsame] at hcj
      exact hboth (names_of_sameMachine hcj) (names_of_sameMachine hdk)
    · rw [hkeyj, hkeyk] at hsame
      exact hboth (names_of_sameMachine hcj)
        (names_of_same (Value.same_symm (hm.parts c hc).1 hsame))
  · rcases machineKey_cases m k with ⟨d, -, hdk, hkeyk⟩ | ⟨-, hkeyk⟩
    · rw [hkeyj, hkeyk] at hsame
      exact hboth (names_of_same hsame) (names_of_sameMachine hdk)
    · rw [hkeyj, hkeyk] at hsame
      exact hboth (names_of_same hsame) (names_of_same (Value.same_refl k))

/-- Machines with no key in common can be merged in either order. -/
theorem mergeMachine_comm {m : Mapping} (hm : m.DistinctKeys) {e f : Value × Value}
    (he : e.1.DistinctKeys ∧ e.2.DistinctKeys) (hf : f.1.DistinctKeys ∧ f.2.DistinctKeys)
    (hlistede : ListedOnce m e.1) (hlistedf : ListedOnce m f.1) (hapart : NamesApart e.1 f.1) :
    (mergeMachine (mergeMachine m e) f).Perm (mergeMachine (mergeMachine m f) e) := by
  have hnotf : ∀ b : Value × Value, sameMachine b.1 e.1 = true → names f.1 b.1 = false :=
    fun b hb => hapart b.1 (names_of_sameMachine hb)
  have hnote : ∀ b : Value × Value, sameMachine b.1 f.1 = true → names e.1 b.1 = false := by
    intro b hb
    rw [Bool.eq_false_iff]
    intro hbe
    have hbf := hapart b.1 hbe
    rw [names_of_sameMachine hb] at hbf
    cases hbf
  -- Neither merge changes which machine the other one finds.
  have hkeyf : machineKey (mergeMachine m e) f.1 = machineKey m f.1 :=
    (machineKey_congr hlistedf fun b hb =>
      (mem_mergeMachine_of_names_eq_false hm he (hnote b hb)).symm).symm
  have hkeye : machineKey (mergeMachine m f) e.1 = machineKey m e.1 :=
    (machineKey_congr hlistede fun b hb =>
      (mem_mergeMachine_of_names_eq_false hm hf (hnotf b hb)).symm).symm
  rw [mergeMachine_eq (mergeMachine m e) hf.2, hkeyf, mergeMachine_eq (mergeMachine m f) he.2,
    hkeye, mergeMachine_eq m he.2, mergeMachine_eq m hf.2]
  exact mergePart_comm hm ⟨distinctKeys_machineKey hm he.1, he.2⟩
    ⟨distinctKeys_machineKey hm hf.1, hf.2⟩ (hapart.same_machineKey hm)

end BundleCheck.Overlay
