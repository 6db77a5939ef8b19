import BundleCheck.Proofs.Charm

/-! # The language of names

The names of charms are a regular language: groups of letters and digits with hyphens between them,
of which the first group begins with a letter. A last group of digits can be cut off as a revision,
and what is left is a name exactly if the whole was one. -/

namespace BundleCheck.CharmRef

open Text

/-! ## Names as a regular language -/

def letters : List Char :=
  ['a', 'b', 'c', 'd', 'e', 'f', 'g', 'h', 'i', 'j', 'k', 'l', 'm', 'n', 'o', 'p', 'q', 'r', 's',
    't', 'u', 'v', 'w', 'x', 'y', 'z']

def lettersAndDigits : List Char :=
  letters ++ ['0', '1', '2', '3', '4', '5', '6', '7', '8', '9']

def oneOf (cs : List Char) : RegularExpression Char :=
  (cs.map .char).sum

theorem mem_matches_char {c : Char} {text : List Char} :
    text ∈ (RegularExpression.char c).matches' ↔ text = [c] :=
  Iff.rfl

theorem mem_oneOf {cs text : List Char} :
    text ∈ (oneOf cs).matches' ↔ ∃ c ∈ cs, text = [c] := by
  induction cs with
  | nil => simp [oneOf, Language.notMem_zero]
  | cons c cs ih =>
      have hsum : oneOf (c :: cs) = .char c + oneOf cs := by simp [oneOf]
      rw [hsum, RegularExpression.matches'_add, Language.mem_add, ih, mem_matches_char]
      simp

theorem mem_star_oneOf {cs text : List Char} :
    text ∈ ((oneOf cs).star).matches' ↔ ∀ c ∈ text, c ∈ cs := by
  rw [RegularExpression.matches'_star, Language.mem_kstar]
  constructor
  · rintro ⟨parts, rfl, hparts⟩ c hc
    obtain ⟨part, hpart, hc⟩ := List.mem_flatten.mp hc
    obtain ⟨d, hd, rfl⟩ := mem_oneOf.mp (hparts part hpart)
    rwa [List.mem_singleton.mp hc]
  · intro h
    have hflatten : text = (text.map ([·])).flatten := by
      rw [← List.flatMap_def, List.flatMap_singleton']
    refine ⟨text.map ([·]), hflatten, fun part hpart => ?_⟩
    obtain ⟨c, hc, rfl⟩ := List.mem_map.mp hpart
    exact mem_oneOf.mpr ⟨c, h c hc, rfl⟩

/-- A group of a name: letters and digits, at least one. -/
def IsGroup (group : List Char) : Prop :=
  group ≠ [] ∧ ∀ c ∈ group, c ∈ lettersAndDigits

def groupExpression : RegularExpression Char :=
  oneOf lettersAndDigits * (oneOf lettersAndDigits).star

theorem mem_groupExpression_iff {text : List Char} :
    text ∈ groupExpression.matches' ↔ IsGroup text := by
  rw [groupExpression, RegularExpression.matches'_mul, Language.mem_mul]
  constructor
  · rintro ⟨first, hfirst, rest, hrest, rfl⟩
    obtain ⟨c, hc, rfl⟩ := mem_oneOf.mp hfirst
    refine ⟨by simp, fun d hd => ?_⟩
    rcases List.mem_cons.mp hd with rfl | hd
    · exact hc
    · exact mem_star_oneOf.mp hrest d hd
  · rintro ⟨hne, hall⟩
    obtain ⟨c, rest, rfl⟩ := List.exists_cons_of_ne_nil hne
    exact ⟨[c], mem_oneOf.mpr ⟨c, hall c (by simp), rfl⟩, rest,
      mem_star_oneOf.mpr fun d hd => hall d (by simp [hd]), rfl⟩

/-- Groups, each behind a hyphen. -/
theorem mem_star_group_iff {text : List Char} :
    text ∈ ((RegularExpression.char '-' * groupExpression).star).matches' ↔
      ∃ groups : List (List Char), text = (groups.map (['-'] ++ ·)).flatten ∧
        ∀ group ∈ groups, IsGroup group := by
  rw [RegularExpression.matches'_star, RegularExpression.matches'_mul, Language.mem_kstar]
  constructor
  · rintro ⟨parts, rfl, hparts⟩
    induction parts with
    | nil => exact ⟨[], rfl, nofun⟩
    | cons part parts ih =>
        obtain ⟨groups, hflatten, hgroups⟩ := ih fun p hp => hparts p (by simp [hp])
        obtain ⟨hyphen, hhyphen, group, hgroup, rfl⟩ :=
          Language.mem_mul.mp (hparts part (by simp))
        obtain rfl := mem_matches_char.mp hhyphen
        refine ⟨group :: groups, by simp [hflatten], ?_⟩
        exact List.forall_mem_cons.mpr ⟨mem_groupExpression_iff.mp hgroup, hgroups⟩
  · rintro ⟨groups, rfl, hgroups⟩
    refine ⟨_, rfl, fun part hpart => ?_⟩
    obtain ⟨group, hgroup, rfl⟩ := List.mem_map.mp hpart
    exact Language.append_mem_mul (mem_matches_char.mpr rfl)
      (mem_groupExpression_iff.mpr (hgroups group hgroup))

/-- Names are the texts of `[a-z][a-z0-9]*(-[a-z0-9]+)*`. -/
def nameExpression : RegularExpression Char :=
  oneOf letters * (oneOf lettersAndDigits).star * (.char '-' * groupExpression).star

/-- A name is made of groups with hyphens between them, and begins with a letter. -/
def HasGroups (name : List Char) : Prop :=
  ∃ c first groups, name = joinWith ['-'] ((c :: first) :: groups) ∧ c ∈ letters ∧
    (∀ d ∈ first, d ∈ lettersAndDigits) ∧ ∀ group ∈ groups, IsGroup group

theorem mem_nameExpression_iff {name : List Char} :
    name ∈ nameExpression.matches' ↔ HasGroups name := by
  rw [nameExpression, RegularExpression.matches'_mul, RegularExpression.matches'_mul,
    Language.mem_mul]
  constructor
  · rintro ⟨front, hfront, back, hback, rfl⟩
    obtain ⟨start, hstart, first, hfirst, rfl⟩ := Language.mem_mul.mp hfront
    obtain ⟨c, hc, rfl⟩ := mem_oneOf.mp hstart
    obtain ⟨groups, rfl, hgroups⟩ := mem_star_group_iff.mp hback
    exact ⟨c, first, groups, by simp [joinWith_cons], hc, mem_star_oneOf.mp hfirst, hgroups⟩
  · rintro ⟨c, first, groups, rfl, hc, hfirst, hgroups⟩
    rw [joinWith_cons]
    refine ⟨c :: first, ?_, _, mem_star_group_iff.mpr ⟨groups, rfl, hgroups⟩, rfl⟩
    exact Language.append_mem_mul (mem_oneOf.mpr ⟨c, hc, rfl⟩) (mem_star_oneOf.mpr hfirst)

/-! ## The check of names -/

theorem mem_map_ofNat_of_code {c : Char} {first count : Nat}
    (h : first ≤ c.toNat ∧ c.toNat < first + count) :
    c ∈ (List.range' first count).map Char.ofNat :=
  List.mem_map.mpr ⟨c.toNat, List.mem_range'_1.mpr h, Char.ofNat_toNat c⟩

theorem mem_letters_iff {c : Char} : c ∈ letters ↔ 'a' ≤ c ∧ c ≤ 'z' := by
  constructor
  · intro hc
    have hall : letters.all (fun d => 'a' ≤ d ∧ d ≤ 'z') = true := by decide
    simpa using List.all_eq_true.mp hall c hc
  · intro hc
    simp only [Char.le_def, UInt32.le_iff_toNat_le] at hc
    change 97 ≤ c.toNat ∧ c.toNat ≤ 122 at hc
    have hrange : letters = (List.range' 97 26).map Char.ofNat := by decide
    rw [hrange]
    exact mem_map_ofNat_of_code (by omega)

theorem mem_lettersAndDigits_iff {c : Char} :
    c ∈ lettersAndDigits ↔ isNameChar c = true ∧ c ≠ '-' := by
  constructor
  · intro hc
    have hall : lettersAndDigits.all (fun d => isNameChar d ∧ d ≠ '-') = true := by decide
    simpa using List.all_eq_true.mp hall c hc
  · rintro ⟨hc, hhyphen⟩
    rcases isNameChar_iff.mp hc with hletter | hdigit | rfl
    · have hrange : lettersAndDigits = (List.range' 97 26).map Char.ofNat ++
          ['0', '1', '2', '3', '4', '5', '6', '7', '8', '9'] := by decide
      rw [hrange]
      exact List.mem_append_left _ (mem_map_ofNat_of_code (by omega))
    · have hrange : lettersAndDigits = letters ++ (List.range' 48 10).map Char.ofNat := by decide
      rw [hrange]
      exact List.mem_append_right _ (mem_map_ofNat_of_code (by omega))
    · exact absurd rfl hhyphen

/-- A first piece is not empty if the text begins with something else than a separator. -/
theorem head?_any_ne_iff {sep : Char} {cs piece : List Char} {rest : List (List Char)}
    (hpieces : pieces (· == sep) cs = piece :: rest) :
    (cs.head?.any (· != sep)) = true ↔ piece ≠ [] := by
  cases cs with
  | nil =>
      cases hpieces
      simp
  | cons c cs =>
      rw [pieces] at hpieces
      split at hpieces
      next hc =>
        cases hpieces
        simp_all
      next hc =>
        split at hpieces
        · cases hpieces
          simp_all
        · cases hpieces
          simp_all

/-- Hyphens separate a text if no piece behind one of them is empty. -/
theorem hyphensSeparate_iff {cs : List Char} :
    hyphensSeparate cs = true ↔ ∀ piece ∈ (pieces (· == '-') cs).tail, piece ≠ [] := by
  induction cs with
  | nil => simp [hyphensSeparate, pieces]
  | cons c cs ih =>
      cases hpieces : pieces (· == '-') cs with
      | nil => exact absurd hpieces (pieces_ne_nil cs)
      | cons piece rest =>
          rw [hpieces, List.tail_cons] at ih
          by_cases hc : c = '-'
          · subst hc
            rw [hyphensSeparate, Bool.and_eq_true, head?_any_ne_iff hpieces, ih]
            simp [pieces, hpieces]
          · have hstep : hyphensSeparate (c :: cs) = hyphensSeparate cs := by
              rw [hyphensSeparate]
              exact fun h => hc h
            rw [hstep, ih]
            simp [pieces, hpieces, hc]

theorem mem_lettersAndDigits_of_hasGroups {first : List Char} {groups : List (List Char)} {c : Char}
    (hc : c ∈ letters) (hfirst : ∀ d ∈ first, d ∈ lettersAndDigits)
    (hgroups : ∀ group ∈ groups, IsGroup group) :
    ∀ part ∈ (c :: first) :: groups, ∀ d ∈ part, d ∈ lettersAndDigits :=
  List.forall_mem_cons.mpr ⟨List.forall_mem_cons.mpr ⟨List.mem_append_left _ hc, hfirst⟩,
    fun group hgroup => (hgroups group hgroup).2⟩

theorem isValidName_of_hasGroups {name : List Char} (h : HasGroups name) :
    isValidName name = true := by
  obtain ⟨c, first, groups, rfl, hc, hfirst, hgroups⟩ := h
  have hparts := mem_lettersAndDigits_of_hasGroups hc hfirst hgroups
  have hchars : ∀ d ∈ joinWith ['-'] ((c :: first) :: groups), isNameChar d = true :=
    forall_mem_joinWith (by simp [isNameChar]) fun part hpart d hd =>
      (mem_lettersAndDigits_iff.mp (hparts part hpart d hd)).1
  have hpieces : pieces (· == '-') (joinWith ['-'] ((c :: first) :: groups)) =
      (c :: first) :: groups := by
    refine pieces_joinWith (by simp) (by simp) fun part hpart d hd => ?_
    simpa using (mem_lettersAndDigits_iff.mp (hparts part hpart d hd)).2
  rw [isValidName, Bool.and_eq_true, Bool.and_eq_true, List.all_eq_true, hyphensSeparate_iff,
    hpieces]
  refine ⟨⟨?_, hchars⟩, fun group hgroup => (hgroups group hgroup).1⟩
  rw [joinWith_cons]
  simpa using mem_letters_iff.mp hc

theorem hasGroups_of_isValidName {name : List Char} (h : isValidName name = true) :
    HasGroups name := by
  rw [isValidName, Bool.and_eq_true, Bool.and_eq_true, List.all_eq_true,
    hyphensSeparate_iff] at h
  obtain ⟨⟨hhead, hall⟩, htail⟩ := h
  have hjoin := joinWith_pieces '-' name
  have hpieces : ∀ piece ∈ pieces (· == '-') name, ∀ c ∈ piece, c ∈ lettersAndDigits := by
    intro piece hpiece c hc
    have hhyphen := eq_false_of_mem_pieces hpiece c hc
    exact mem_lettersAndDigits_iff.mpr
      ⟨hall c (mem_of_mem_pieces hpiece hc), by simpa using hhyphen⟩
  cases hname : pieces (· == '-') name with
  | nil => exact absurd hname (pieces_ne_nil name)
  | cons piece groups =>
      rw [hname] at hjoin htail hpieces
      obtain ⟨hpiece, hgroups⟩ := List.forall_mem_cons.mp hpieces
      rw [← hjoin, joinWith_cons] at hhead
      cases piece with
      | nil =>
          -- The name would be empty or begin with a hyphen.
          cases groups <;> simp at hhead
      | cons c first =>
          have hc : c ∈ letters := mem_letters_iff.mpr (by simpa using hhead)
          exact ⟨c, first, groups, hjoin.symm, hc, fun d hd => hpiece d (by simp [hd]),
            fun group hgroup => ⟨htail group hgroup, hgroups group hgroup⟩⟩

theorem isValidName_iff_mem {name : List Char} :
    isValidName name = true ↔ name ∈ nameExpression.matches' :=
  Iff.trans ⟨hasGroups_of_isValidName, isValidName_of_hasGroups⟩ mem_nameExpression_iff.symm

/-! ## Revisions -/

/-- The name and the revision of a last segment. Its last group is the revision if it can be one,
and belongs to the name otherwise. -/
inductive Cuts : List Char → List Char → Option Nat → Prop
  | revision {name digits : List Char} {n : Nat} (h : IsRevision digits n) :
      Cuts (name ++ '-' :: digits) name (some n)
  | name {last : List Char}
      (h : ∀ name digits n, last = name ++ '-' :: digits → ¬ IsRevision digits n) :
      Cuts last last none

/-- Where the last group is no revision, all of the segment is the name. -/
theorem splitRevision_of_forall_not {last : List Char}
    (h : ∀ name digits n, last = name ++ '-' :: digits → ¬ IsRevision digits n) :
    splitRevision last = (last, none) := by
  unfold splitRevision
  split
  next base digits hcut =>
    split
    next n hn =>
      exact absurd (isRevision_iff.mpr hn) (h base digits n (cutLast_eq_some hcut))
    · rfl
  · rfl

/-- A segment that begins with something else than a hyphen is cut into its name and revision. -/
theorem cuts_iff {last name : List Char} {revision : Option Nat} (h : last.head? ≠ some '-') :
    Cuts last name revision ↔ splitRevision last = (name, revision) := by
  constructor
  · rintro (hrevision | hname)
    · refine splitRevision_of_isRevision ?_ hrevision
      rintro rfl
      exact h rfl
    · exact splitRevision_of_forall_not hname
  · intro hsplit
    by_cases hrevision : ∃ name digits n, last = name ++ '-' :: digits ∧ IsRevision digits n
    · obtain ⟨name', digits, n, rfl, hdigits⟩ := hrevision
      have hname : name' ≠ [] := by
        rintro rfl
        exact h rfl
      rw [splitRevision_of_isRevision hname hdigits] at hsplit
      cases hsplit
      exact .revision hdigits
    · have hnone : ∀ name digits n, last = name ++ '-' :: digits → ¬ IsRevision digits n :=
        fun name digits n heq hdigits => hrevision ⟨name, digits, n, heq, hdigits⟩
      rw [splitRevision_of_forall_not hnone] at hsplit
      cases hsplit
      exact .name hnone

/-- A revision behind a name makes no difference for whether the name is valid. -/
theorem isValidName_append_revision {name digits : List Char} {n : Nat} (hname : name ≠ [])
    (h : IsRevision digits n) : isValidName (name ++ '-' :: digits) = isValidName name := by
  have hpieces : pieces (· == '-') digits = [digits] := by
    refine pieces_of_forall_eq_false fun c hc => ?_
    have hne : c ≠ '-' := fun he => h.hyphen_not_mem (he ▸ hc)
    simpa using hne
  have hdigits : digits.all isNameChar = true :=
    List.all_eq_true.mpr fun c hc => isNameChar_of_isDigit (h.2.1 c hc)
  have hhyphens : hyphensSeparate (name ++ '-' :: digits) = hyphensSeparate name := by
    rw [Bool.eq_iff_iff, hyphensSeparate_iff, hyphensSeparate_iff,
      pieces_append_sep (by simp), hpieces, List.tail_append_of_ne_nil (pieces_ne_nil name),
      List.forall_mem_append]
    simp [h.1]
  obtain ⟨c, cs, rfl⟩ := List.exists_cons_of_ne_nil hname
  simp only [isValidName, hhyphens, List.all_append, List.all_cons, hdigits]
  simp [isNameChar]

/-- Cutting a revision neither makes a name valid nor invalid. -/
theorem isValidName_splitRevision (last : List Char) :
    isValidName (splitRevision last).1 = isValidName last := by
  unfold splitRevision
  split
  next base digits hcut =>
    split
    next n hn =>
      split
      · rfl
      next hbase =>
        rw [cutLast_eq_some hcut,
          isValidName_append_revision (by simpa using hbase) (isRevision_iff.mpr hn)]
    · rfl
  · rfl

/-- The empty group before the revision is found with the revision and without it. -/
example :
    splitRevision "nova--7".toList = ("nova-".toList, some 7) ∧
      isValidName "nova--7".toList = false ∧ isValidName "nova-".toList = false := by
  decide

end BundleCheck.CharmRef
