import BundleCheck.Proofs.ProviderMapping.Ports
import BundleCheck.Proofs.SortedMap.Search
import BundleCheck.Proofs.Text.Words

/-! # Plain entries and bridges

The entries of a text are its words. They are keyed by either side of their first colon, and of the
entries with one key the last one counts. Bridges are the plain reading by the left side of a text
in which every entry has both sides. -/

namespace BundleCheck.ProviderMapping

open Text

/-! ## Sides -/

/-- The entry has the text on the left before its first colon and the one on the right behind it. An
entry without a colon has all of its text on the left. -/
def HasSides (entry : List Char) (left right : String) : Prop :=
  Assigns entry left right ∨ ':' ∉ entry ∧ entry = left.toList ∧ right = ""

/-- The entry has a colon, and the texts before its first colon and behind it are not empty. -/
def IsComplete (entry : List Char) : Prop :=
  ∃ left right, Assigns entry left right ∧ left ≠ "" ∧ right ≠ ""

theorem colon_mem_of_assigns {entry : List Char} {left right : String}
    (h : Assigns entry left right) : ':' ∈ entry := by
  rw [h.1]
  simp

theorem hasSides_iff {entry : List Char} {left right : String} :
    HasSides entry left right ↔
      String.ofList (sides entry).1 = left ∧ String.ofList (sides entry).2 = right := by
  rw [HasSides, sides]
  cases hcut : cutFirst ':' entry with
  | none =>
      have hcolon := cutFirst_eq_none.mp hcut
      have hleft : entry = left.toList ↔ String.ofList entry = left := by
        rw [← String.toList_inj, String.toList_ofList]
      have hright : right = "" ↔ String.ofList [] = right := eq_comm
      simp only [not_assigns_of_cutFirst hcut, false_or, hcolon, not_false_eq_true, true_and,
        Option.getD_none, hleft, hright]
  | some parts =>
      have hassigns := exists_assigns_of_cutFirst hcut
      simp [assigns_unique hassigns, colon_mem_of_assigns hassigns]

/-- There are no blanks in an entry, so that its sides need not be trimmed. -/
theorem trimmed_of_hasSides {value left right : String} {entry : List Char}
    (hentry : entry ∈ entries value) (h : HasSides entry left right) :
    trimmed left = left ∧ trimmed right = right := by
  have hblank : ∀ c ∈ entry, isBlank c = false := (mem_words hentry).2
  have htrimmed : ∀ s : String, (∀ c ∈ s.toList, c ∈ entry) → trimmed s = s := fun s hs => by
    rw [trimmed, trim_of_forall_eq_false fun c hc => hblank c (hs c hc), String.ofList_toList]
  rcases h with ⟨hentry, -⟩ | ⟨-, hentry, rfl⟩
  · exact ⟨htrimmed left fun c hc => by simp [hentry, hc],
      htrimmed right fun c hc => by simp [hentry, hc]⟩
  · exact ⟨htrimmed left fun c hc => by rwa [hentry], htrimmed "" (by simp)⟩

theorem checkSides_of_assigns {entry : List Char} {left right : String}
    (h : Assigns entry left right) : checkSides entry =
      if left = "" ∨ right = "" then .error (.emptySide (String.ofList entry)) else .ok () := by
  rw [checkSides, assigns_iff_cutFirst.mp h]
  simp

theorem isComplete_iff_of_assigns {entry : List Char} {left right : String}
    (h : Assigns entry left right) : IsComplete entry ↔ ¬ (left = "" ∨ right = "") := by
  simp only [IsComplete, assigns_unique h]
  simp

theorem checkSides_eq_ok_iff {entry : List Char} :
    checkSides entry = .ok () ↔ IsComplete entry := by
  cases hcut : cutFirst ':' entry with
  | none => simp [checkSides, IsComplete, hcut, not_assigns_of_cutFirst hcut]
  | some parts =>
      have hassigns := exists_assigns_of_cutFirst hcut
      rw [checkSides_of_assigns hassigns, isComplete_iff_of_assigns hassigns]
      simp

instance (entry : List Char) : Decidable (IsComplete entry) :=
  decidable_of_iff _ checkSides_eq_ok_iff

/-- An entry fails for want of a colon, or else for want of a side. -/
theorem checkSides_eq_error_iff {entry : List Char} {cause : MappingError} :
    checkSides entry = .error cause ↔
      ':' ∉ entry ∧ cause = .missingSeparator (String.ofList entry) ∨
        LacksSide entry ∧ cause = .emptySide (String.ofList entry) := by
  cases hcut : cutFirst ':' entry with
  | none =>
      have hcolon := cutFirst_eq_none.mp hcut
      simp [checkSides, hcut, hcolon, LacksSide, not_assigns_of_cutFirst hcut, eq_comm]
  | some parts =>
      have hassigns := exists_assigns_of_cutFirst hcut
      have hcolon := colon_mem_of_assigns hassigns
      rw [checkSides_of_assigns hassigns, lacksSide_iff_of_assigns hassigns]
      by_cases hempty : String.ofList parts.1 = "" ∨ String.ofList parts.2 = ""
      · simp only [hcolon, hempty, if_true, not_true_eq_false, false_and, false_or, true_and,
          Except.error.injEq]
        exact eq_comm
      · simp only [hcolon, hempty, if_false, not_true_eq_false, false_and, or_self, reduceCtorEq]

/-! ## Keys -/

theorem get?_byLeft_eq_some_iff {value left right : String} :
    (byLeft value).get? left = some right ↔ LastGives HasSides (entries value) left right := by
  rw [byLeft, ← List.filterMap_eq_map, SortedMap.get?_ofList_filterMap_eq_some_iff]
  simp only [LastGives, Function.comp_apply, Option.some.injEq, Prod.mk.injEq, hasSides_iff]

theorem get?_byRight_eq_some_iff_lastGives {value right left : String} :
    (byRight value).get? right = some left ↔
      LastGives (fun entry right left => Assigns entry left right) (entries value) right left := by
  rw [byRight, SortedMap.get?_ofList_filterMap_eq_some_iff]
  simp only [keyedByRight_eq_some_iff]

theorem mem_keys_byLeft_iff {value left : String} :
    left ∈ (byLeft value).keys ↔ ∃ entry ∈ entries value, ∃ right, HasSides entry left right := by
  rw [← SortedMap.contains_iff_mem_keys, SortedMap.contains, Option.isSome_iff_exists,
    ← exists_lastGives_iff]
  simp only [get?_byLeft_eq_some_iff]

theorem mem_keys_byRight_iff {value right : String} :
    right ∈ (byRight value).keys ↔ ∃ entry ∈ entries value, ∃ left, Assigns entry left right := by
  rw [← SortedMap.contains_iff_mem_keys, SortedMap.contains, Option.isSome_iff_exists]
  simp only [get?_byRight_eq_some_iff_lastGives, exists_lastGives_iff]

/-! ## Bridges -/

theorem bridges_eq_ok_iff {value : String} {m : SortedMap String String} :
    bridges value = .ok m ↔ (∀ entry ∈ entries value, IsComplete entry) ∧ m = byLeft value := by
  simp only [← checkSides_eq_ok_iff, ← forM_eq_ok_iff]
  rw [bridges, bind_eq_ok_iff]
  constructor
  · rintro ⟨⟨⟩, hall, hm⟩
    exact ⟨hall, (Except.ok.inj hm).symm⟩
  · rintro ⟨hall, rfl⟩
    exact ⟨(), hall, rfl⟩

/-- The first entry that lacks a side decides how reading fails. -/
theorem bridges_eq_error_iff {value : String} {cause : MappingError} :
    bridges value = .error cause ↔ ∃ front entry back, entries value = front ++ entry :: back ∧
      (∀ e ∈ front, IsComplete e) ∧ checkSides entry = .error cause := by
  simp only [← checkSides_eq_ok_iff, ← forM_eq_error_iff]
  rw [bridges, bind_eq_error_iff]
  constructor
  · rintro (hfail | ⟨⟨⟩, -, hm⟩)
    · exact hfail
    · cases hm
  · exact .inl

/-- In complete entries, neither side is empty. -/
theorem ne_empty_of_get?_byLeft {value provider bridge : String}
    (hall : ∀ entry ∈ entries value, IsComplete entry)
    (h : (byLeft value).get? provider = some bridge) :
    provider ≠ "" ∧ bridge ≠ "" ∧ ∃ entry ∈ entries value, Assigns entry provider bridge := by
  obtain ⟨front, entry, back, hsplit, hsides, -⟩ := get?_byLeft_eq_some_iff.mp h
  have hentry : entry ∈ entries value := by simp [hsplit]
  obtain ⟨left, right, hassigns, hleft, hright⟩ := hall entry hentry
  rcases hsides with hsides | ⟨hcolon, -⟩
  · obtain ⟨rfl, rfl⟩ := (assigns_unique hassigns).mp hsides
    exact ⟨hleft, hright, entry, hentry, hassigns⟩
  · exact absurd (colon_mem_of_assigns hassigns) hcolon

/-- The entries of a text are its words, and are keyed by either side of their first colon; there is
nothing to trim from a side. By the left side, the keys are the texts before the first colon, or the
whole entry if it has none, and each has what stands behind the first colon of the last entry with
this key. By the right side, the keys are the texts behind the first colons, and each has what
stands before the first colon of the last entry with this key. Bridges are read exactly if every
entry has a colon with text on both sides of the first one, and fail with the first entry of which
this is not so; they are then the reading by the left side, in which no key and no value is empty
and every value stands in an entry with its key. -/
theorem entries_keyed (value : String) :
    (∀ es, IsWords value.toList es ↔ entries value = es) ∧
    (∀ entry ∈ entries value, ∀ left right, HasSides entry left right →
      trimmed left = left ∧ trimmed right = right) ∧
    (∀ left, left ∈ (byLeft value).keys ↔
      ∃ entry ∈ entries value, ∃ right, HasSides entry left right) ∧
    (∀ left right, (byLeft value).get? left = some right ↔
      LastGives HasSides (entries value) left right) ∧
    (∀ right, right ∈ (byRight value).keys ↔
      ∃ entry ∈ entries value, ∃ left, Assigns entry left right) ∧
    (∀ right left, (byRight value).get? right = some left ↔
      LastGives (fun entry right left => Assigns entry left right) (entries value) right left) ∧
    ((∃ m, bridges value = .ok m) ↔ ∀ entry ∈ entries value, IsComplete entry) ∧
    (∀ m, bridges value = .ok m → m = byLeft value ∧
      ∀ provider bridge, m.get? provider = some bridge →
        provider ≠ "" ∧ bridge ≠ "" ∧ ∃ entry ∈ entries value, Assigns entry provider bridge) ∧
    (∀ cause, bridges value = .error cause ↔
      ∃ front entry back, entries value = front ++ entry :: back ∧
        (∀ e ∈ front, IsComplete e) ∧
        (':' ∉ entry ∧ cause = .missingSeparator (String.ofList entry) ∨
          LacksSide entry ∧ cause = .emptySide (String.ofList entry))) := by
  refine ⟨fun es => isWords_iff, fun entry hentry left right => trimmed_of_hasSides hentry,
    fun left => mem_keys_byLeft_iff, fun left right => get?_byLeft_eq_some_iff,
    fun right => mem_keys_byRight_iff, fun right left => get?_byRight_eq_some_iff_lastGives, ?_,
    fun m hm => ?_, fun cause => ?_⟩
  · simp [bridges_eq_ok_iff]
  · obtain ⟨hall, rfl⟩ := bridges_eq_ok_iff.mp hm
    exact ⟨rfl, fun provider bridge => ne_empty_of_get?_byLeft hall⟩
  · simp only [bridges_eq_error_iff, checkSides_eq_error_iff]

/-- A provider that is given twice, and a bridge with a colon in its name. -/
theorem entries_keyed_repeated :
    bridges "p:br-a q:00:16 p:br-b" = .ok (byLeft "p:br-a q:00:16 p:br-b") ∧
      (byLeft "p:br-a q:00:16 p:br-b").get? "q" = some "00:16" ∧
      (byLeft "p:br-a q:00:16 p:br-b").get? "p" = some "br-b" := by
  obtain ⟨-, -, -, hget, -, -, hread, hbridges, -⟩ := entries_keyed "p:br-a q:00:16 p:br-b"
  obtain ⟨m, hm⟩ := hread.mpr (by decide +kernel)
  obtain ⟨rfl, -⟩ := hbridges m hm
  refine ⟨hm, (hget _ _).mpr ?_, (hget _ _).mpr ?_⟩
  · refine ⟨["p:br-a".toList], "q:00:16".toList, ["p:br-b".toList], by decide +kernel,
      hasSides_iff.mpr (by decide +kernel), fun other hother w hsides => ?_⟩
    rw [List.mem_singleton.mp hother, hasSides_iff] at hsides
    exact absurd hsides.1 (by decide +kernel)
  · exact ⟨["p:br-a".toList, "q:00:16".toList], "p:br-b".toList, [], by decide +kernel,
      hasSides_iff.mpr (by decide +kernel), nofun⟩

end BundleCheck.ProviderMapping
