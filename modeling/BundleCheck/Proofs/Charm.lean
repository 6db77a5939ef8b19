import BundleCheck.Charm
import BundleCheck.Proofs.Except
import BundleCheck.Proofs.Text

/-! # The canonical text of charm references

A reference is cut at its colon, its slashes and its last hyphen. Its canonical text is cut at the
same places, so that it is read as the reference that it was written for. -/

namespace BundleCheck.CharmRef

open Text

/-! ## Parts and their text -/

def ownerChars (owner : Option String) : List Char :=
  owner.elim [] fun owner => '~' :: owner.toList ++ ['/']

def seriesChars (series : Option String) : List Char :=
  series.elim [] fun series => series.toList ++ ['/']

def revisionChars (revision : Option Nat) : List Char :=
  revision.elim [] fun n => '-' :: decimal n

theorem chars_stored (store : Store) (owner series : Option String) (name : String)
    (revision : Option Nat) :
    chars (.stored store owner series name revision) =
      store.schema ++ ':' ::
        (ownerChars owner ++ (seriesChars series ++ (name.toList ++ revisionChars revision))) := by
  simp only [chars, ownerChars, seriesChars, revisionChars, List.append_assoc, List.cons_append]

/-- A segment of a reference is not empty and holds no slash. -/
def IsSegment (segment : String) : Prop :=
  segment.toList ≠ [] ∧ '/' ∉ segment.toList

/-! ## Cutting a reference -/

theorem parseStore_schema (store : Store) (rest : List Char) :
    parseStore (store.schema ++ ':' :: rest) = .ok (store, rest) := by
  cases store <;> simp [parseStore, Store.schema, cutFirst, Store.ofSchema?]

/-- An owner is read exactly where one was written, and none only where no tilde begins. -/
theorem parseOwner_eq_ok_iff {reference rest after : List Char} {owner : Option String} :
    parseOwner reference rest = .ok (owner, after) ↔
      rest = ownerChars owner ++ after ∧ (∀ o, owner = some o → IsSegment o) ∧
        (owner = none → rest.head? ≠ some '~') := by
  unfold parseOwner
  split
  next owned =>
    constructor
    · intro h
      split at h
      · cases h
      next cut owner' after' hcut =>
        obtain ⟨rfl, hslash⟩ := cutFirst_eq_some.mp hcut
        split at h
        · cases h
        next hne =>
          cases h
          have hsegment : IsSegment (String.ofList owner') := by
            simpa [IsSegment, hslash] using hne
          refine ⟨by simp [ownerChars], ?_, nofun⟩
          rintro o ⟨⟩
          exact hsegment
    · rintro ⟨howned, hsegment, hnone⟩
      cases owner with
      | none => exact absurd rfl (hnone rfl)
      | some o =>
          obtain ⟨hne, hslash⟩ := hsegment o rfl
          have hcut : cutFirst '/' owned = some (o.toList, after) :=
            cutFirst_eq_some.mpr ⟨by simpa [ownerChars] using howned, hslash⟩
          simp [hcut, hne]
  next hnotilde =>
    constructor
    · intro h
      cases h
      refine ⟨rfl, nofun, fun _ htilde => ?_⟩
      cases rest with
      | nil => cases htilde
      | cons c cs =>
          cases htilde
          exact hnotilde cs rfl
    · rintro ⟨hrest, -, -⟩
      cases owner with
      | none => simp_all [ownerChars]
      | some o => exact absurd hrest (hnotilde _)

/-- A series is read exactly where one was written. -/
theorem parseSeries_eq_ok_iff {reference rest name : List Char} {series : Option String} :
    parseSeries reference rest = .ok (series, name) ↔
      rest = seriesChars series ++ name ∧ '/' ∉ name ∧ ∀ s, series = some s → IsSegment s := by
  have hslash : ∀ cs : List Char, '/' ∉ cs → ∀ c ∈ cs, (c == '/') = false := by
    rintro cs hcs c hc
    simpa using fun he : c = '/' => hcs (he ▸ hc)
  constructor
  · intro h
    have hjoin := joinWith_pieces '/' rest
    have hpieces : ∀ piece ∈ pieces (· == '/') rest, '/' ∉ piece := by
      intro piece hpiece hmem
      simpa using eq_false_of_mem_pieces hpiece '/' hmem
    unfold parseSeries at h
    split at h
    next name' hone =>
      cases h
      rw [hone] at hjoin hpieces
      exact ⟨hjoin.symm, hpieces name (by simp), nofun⟩
    next series' name' htwo =>
      rw [htwo] at hjoin hpieces
      split at h
      · cases h
      next hne =>
        cases h
        refine ⟨?_, hpieces name (by simp), ?_⟩
        · simpa [joinWith, seriesChars] using hjoin.symm
        · rintro s ⟨⟩
          exact ⟨by simpa using hne, by simpa using hpieces series' (by simp)⟩
    · cases h
  · rintro ⟨rfl, hname, hseries⟩
    cases series with
    | none =>
        have hone := pieces_of_forall_eq_false (hslash name hname)
        simp [parseSeries, seriesChars, hone]
    | some s =>
        obtain ⟨hne, hs⟩ := hseries s rfl
        have htwo : pieces (· == '/') (s.toList ++ '/' :: name) = [s.toList, name] := by
          rw [pieces_append_cons (hslash _ hs) (by simp),
            pieces_of_forall_eq_false (hslash name hname)]
        simp [parseSeries, seriesChars, htwo, hne]

/-- Digits that write a revision, a number of 32 bits. -/
def IsRevision (digits : List Char) (n : Nat) : Prop :=
  digits ≠ [] ∧ (∀ c ∈ digits, c.isDigit = true) ∧ Nat.ofDigitChars 10 digits 0 = n ∧
    n < wordSize 32

theorem isRevision_iff {digits : List Char} {n : Nat} :
    IsRevision digits n ↔ (digits? 10 digits).filter (· < wordSize 32) = some n := by
  rw [Option.filter_eq_some_iff, digits?_eq_some_iff, IsRevision]
  simp only [decide_eq_true_eq, and_assoc]

theorem IsRevision.hyphen_not_mem {digits : List Char} {n : Nat} (h : IsRevision digits n) :
    '-' ∉ digits := fun hmem => by
  simpa using h.2.1 '-' hmem

/-- A revision is cut off the name that it was written behind. -/
theorem splitRevision_of_isRevision {name digits : List Char} {n : Nat} (hname : name ≠ [])
    (h : IsRevision digits n) : splitRevision (name ++ '-' :: digits) = (name, some n) := by
  simp [splitRevision, cutLast_append_cons h.hyphen_not_mem, isRevision_iff.mp h, hname]

theorem splitRevision_append {name : List Char} {n : Nat} (hname : name.isEmpty = false)
    (hn : n < wordSize 32) : splitRevision (name ++ '-' :: decimal n) = (name, some n) :=
  splitRevision_of_isRevision (by simpa using hname)
    ⟨decimal_ne_nil n, fun _ => isDigit_of_mem_decimal, Nat.ofDigitChars_ten_toDigits, hn⟩

/-- The name and the revision are cut again where they were, however the digits were written. -/
theorem splitRevision_again {cs name : List Char} {revision : Option Nat}
    (h : splitRevision cs = (name, revision)) :
    splitRevision (name ++ revisionChars revision) = (name, revision) := by
  unfold splitRevision at h
  split at h
  next base digits hcut =>
    split at h
    next n hdigits =>
      split at h
      next hempty =>
        cases h
        simp [revisionChars, splitRevision, hcut, hdigits, hempty]
      next hbase =>
        cases h
        have hn : n < wordSize 32 := by
          simpa using (Option.filter_eq_some_iff.mp hdigits).2
        exact splitRevision_append (by simpa using hbase) hn
    next hdigits =>
      cases h
      simp [revisionChars, splitRevision, hcut, hdigits]
  next hcut =>
    cases h
    simp [revisionChars, splitRevision, hcut]

/-! ## Names -/

theorem isNameChar_iff {c : Char} :
    isNameChar c = true ↔
      (97 ≤ c.toNat ∧ c.toNat ≤ 122) ∨ (48 ≤ c.toNat ∧ c.toNat ≤ 57) ∨ c = '-' := by
  simp only [isNameChar, Bool.or_eq_true, Bool.and_eq_true, decide_eq_true_eq, beq_iff_eq,
    Char.le_def, UInt32.le_iff_toNat_le, or_assoc]
  rfl

theorem isBlank_of_isNameChar {c : Char} (h : isNameChar c = true) : isBlank c = false := by
  rcases isNameChar_iff.mp h with hletter | hdigit | rfl
  · simp only [isBlank]
    grind
  · simp only [isBlank]
    grind
  · decide

theorem isNameChar_of_isDigit {c : Char} (h : c.isDigit = true) : isNameChar c = true :=
  isNameChar_iff.mpr (.inr (.inl (isDigit_iff.mp h)))

theorem isNameChar_of_mem {name : List Char} (h : isValidName name = true) {revision : Option Nat}
    {c : Char} (hc : c ∈ name ++ revisionChars revision) : isNameChar c = true := by
  rcases List.mem_append.mp hc with hc | hc
  · simp only [isValidName, Bool.and_eq_true, List.all_eq_true] at h
    exact h.1.2 c hc
  · cases revision with
    | none => cases hc
    | some n =>
        rcases List.mem_cons.mp hc with rfl | hc
        · decide
        · exact isNameChar_of_isDigit (isDigit_of_mem_decimal hc)

theorem slash_not_mem_of_isValidName {name : List Char} (h : isValidName name = true)
    (revision : Option Nat) : '/' ∉ name ++ revisionChars revision := fun hmem => by
  have hchar := isNameChar_of_mem h hmem
  revert hchar
  decide

theorem head?_of_isValidName {name : List Char} (h : isValidName name = true) :
    ∃ c cs, name = c :: cs ∧ c ≠ '~' := by
  cases name with
  | nil => simp [isValidName] at h
  | cons c cs =>
      refine ⟨c, cs, rfl, ?_⟩
      rintro rfl
      simp [isValidName] at h

/-! ## The canonical text -/

/-- The parts of a stored reference are found again where they were written together. -/
structure IsStored (owner series : Option String) (name : String) (revision : Option Nat) :
    Prop where
  owner_segment : ∀ o, owner = some o → IsSegment o
  series_segment : ∀ s, series = some s → IsSegment s
  /-- Without an owner no series begins like one. -/
  series_head : owner = none → ∀ s, series = some s → s.toList.head? ≠ some '~'
  name_valid : isValidName name.toList = true
  split_name : splitRevision (name.toList ++ revisionChars revision) = (name.toList, revision)

/-- What reading guarantees of a reference. -/
def IsReadable : CharmRef → Prop
  | .stored _ owner series name revision => IsStored owner series name revision
  | .directory path =>
      trim path.toList = path.toList ∧ path.toList ≠ [] ∧ isPathLike path.toList = true ∧
        parseDirectory path.toList = .ok (.directory path)

theorem isReadable_of_parseStored {reference : List Char} {r : CharmRef}
    (h : parseStored reference = .ok r) : r.IsReadable := by
  rw [parseStored, bind_eq_ok_iff] at h
  obtain ⟨⟨store, afterStore⟩, -, hstore⟩ := h
  obtain ⟨⟨owner, afterOwner⟩, howner, hread⟩ := bind_eq_ok_iff.mp hstore
  obtain ⟨⟨series, last⟩, hseries, hlast⟩ := bind_eq_ok_iff.mp hread
  obtain ⟨rfl, -, hseriesSegment⟩ := parseSeries_eq_ok_iff.mp hseries
  obtain ⟨-, hownerSegment, htilde⟩ := parseOwner_eq_ok_iff.mp howner
  cases hsplit : splitRevision last with
  | mk name revision =>
      simp only [hsplit] at hlast
      split at hlast
      next hname =>
        cases hlast
        refine ⟨hownerSegment, hseriesSegment, ?_, by simpa using hname,
          by simpa using splitRevision_again hsplit⟩
        rintro rfl s rfl hs
        obtain ⟨rfl, -⟩ := parseOwner_eq_ok_iff.mp howner
        exact htilde rfl (by simp [ownerChars, seriesChars, hs])
      · cases hlast

theorem isReadable_of_parse {s : String} {r : CharmRef} (h : parse s = .ok r) : r.IsReadable := by
  unfold parse at h
  simp only at h
  split at h
  · cases h
  next hempty =>
    split at h
    next hpath =>
      have hread := h
      unfold parseDirectory at h
      simp only at h
      split at h
      · cases h
      · cases h
        refine ⟨by simp [trim_trim], by simpa using hempty, by simpa using hpath, ?_⟩
        simpa using hread
    · exact isReadable_of_parseStored h

theorem parseStored_chars {store : Store} {owner series : Option String} {name : String}
    {revision : Option Nat} (h : IsStored owner series name revision) :
    parseStored (chars (.stored store owner series name revision)) =
      .ok (.stored store owner series name revision) := by
  generalize hlast : name.toList ++ revisionChars revision = last
  have hslash : '/' ∉ last := hlast ▸ slash_not_mem_of_isValidName h.name_valid revision
  have htilde : owner = none → (seriesChars series ++ last).head? ≠ some '~' := by
    intro hnone
    cases series with
    | none =>
        obtain ⟨c, cs, hname, hc⟩ := head?_of_isValidName h.name_valid
        simpa [seriesChars, ← hlast, hname] using hc
    | some s =>
        obtain ⟨hne, -⟩ := h.series_segment s rfl
        obtain ⟨c, cs, hs⟩ := List.exists_cons_of_ne_nil hne
        simpa [seriesChars, hs] using h.series_head hnone s rfl
  have howner (reference : List Char) :
      parseOwner reference (ownerChars owner ++ (seriesChars series ++ last)) =
        .ok (owner, seriesChars series ++ last) := by
    refine parseOwner_eq_ok_iff.mpr ⟨rfl, h.owner_segment, fun hnone => ?_⟩
    rw [hnone]
    exact htilde hnone
  have hseries (reference : List Char) :
      parseSeries reference (seriesChars series ++ last) = .ok (series, last) :=
    parseSeries_eq_ok_iff.mpr ⟨rfl, hslash, h.series_segment⟩
  rw [chars_stored, hlast, parseStored, parseStore_schema, ok_bind]
  simp only [howner, hseries, ok_bind]
  simp [← hlast, h.split_name, h.name_valid]

/-- The canonical text of a stored reference has no blanks around it, and does not begin like a
path. -/
theorem trim_chars_stored (store : Store) (owner series : Option String) (revision : Option Nat)
    {name : String} (h : isValidName name.toList = true) :
    trim (chars (.stored store owner series name revision)) =
        chars (.stored store owner series name revision) ∧
      isPathLike (chars (.stored store owner series name revision)) = false ∧
      chars (.stored store owner series name revision) ≠ [] := by
  rw [chars_stored]
  refine ⟨trim_eq_self ?_ ?_, by cases store <;> rfl, by cases store <;> nofun⟩
  · intro d hd
    cases store <;> cases hd <;> decide
  · intro d hd
    -- The text ends like the name with its revision, which is not empty.
    obtain ⟨c, cs, hname, -⟩ := head?_of_isValidName h
    obtain ⟨e, he⟩ : ∃ e, (name.toList ++ revisionChars revision).getLast? = some e :=
      ⟨_, List.getLast?_eq_some_getLast (by simp [hname])⟩
    have hde : d = e := by
      rw [← List.append_assoc, ← List.cons_append, ← List.append_assoc, List.getLast?_append,
        he] at hd
      exact (Option.some.inj hd).symm
    exact isBlank_of_isNameChar (isNameChar_of_mem h (List.mem_of_getLast? (hde ▸ he)))

/-- The canonical text of a readable reference is read as that reference. -/
theorem parse_render_of_isReadable {r : CharmRef} (h : r.IsReadable) : parse r.render = .ok r := by
  cases r with
  | stored store owner series name revision =>
      obtain ⟨htrim, hpath, hne⟩ := trim_chars_stored store owner series revision h.name_valid
      simp [parse, render, htrim, hpath, hne, parseStored_chars h]
  | directory path =>
      obtain ⟨htrim, hne, hpath, hread⟩ := h
      simp [parse, render, chars, htrim, hne, hpath, hread]

/-- A reference that was read is read again from its canonical text, with all its parts. So
references that were read are equal exactly if their canonical texts are. -/
theorem parse_canonical {s : String} {r : CharmRef} (h : parse s = .ok r) :
    parse r.render = .ok r ∧
      ∀ s' r', parse s' = .ok r' → (r' = r ↔ r'.render = r.render) := by
  have hr := parse_render_of_isReadable (isReadable_of_parse h)
  refine ⟨hr, fun s' r' h' => ⟨fun he => he ▸ rfl, fun he => ?_⟩⟩
  have hr' := parse_render_of_isReadable (isReadable_of_parse h')
  rw [he, hr] at hr'
  exact (Except.ok.inj hr').symm

/-- An owner with a colon, a series with a tilde, and a revision behind digits that belong to the
name. -/
def novaCharm : CharmRef :=
  .stored .charmStore (some "ow:ner") (some "~f") "nova-2" (some 7)

/-- The canonical text drops the blanks and the zeros, and nothing else. -/
theorem parse_canonical_novaCharm :
    parse " cs:~ow:ner/~f/nova-2-007 " = .ok novaCharm ∧
      novaCharm.render = "cs:~ow:ner/~f/nova-2-7" ∧ parse novaCharm.render = .ok novaCharm ∧
      ∀ r, parse "cs:~ow:ner/~f/nova-2-08" = .ok r → r.render ≠ novaCharm.render := by
  have hread : parse " cs:~ow:ner/~f/nova-2-007 " = .ok novaCharm := by decide +kernel
  obtain ⟨hagain, hiff⟩ := parse_canonical hread
  refine ⟨hread, by decide +kernel, hagain, fun r hr hrender => ?_⟩
  rw [(hiff _ r hr).mpr hrender] at hr
  revert hr
  decide +kernel

end BundleCheck.CharmRef
