import BundleCheck.Placement
import BundleCheck.Proofs.Except
import BundleCheck.Proofs.Text

/-! # The canonical text of placements

A placement is read again from its canonical text unless the text hides it: the text of a machine
loses its blanks only after the directive was cut, and a unit loses the container that it was
written behind. -/

namespace BundleCheck

open Text

namespace Placement

/-! ## Readable and plain placements -/

def IsReadable : Placement → Prop
  | .machine id =>
      id.text.toList ≠ [] ∧ id.text.toList ≠ newWord ∧ ':' ∉ id.text.toList ∧
        '/' ∉ id.text.toList ∧ Container.ofName? id.text.toList = none
  | .container _ (some id) => id.text.toList ≠ [] ∧ '/' ∉ id.text.toList
  | .container _ none => True
  | .unit application index =>
      application.toList ≠ [] ∧ '/' ∉ application.toList ∧ index < wordSize 32
  | .new => True

/-- The canonical text does not hide the placement: no container stands on a machine that is named
like a new one, and the application of a unit neither begins with a blank nor holds a colon. -/
def IsPlain : Placement → Prop
  | .machine _ => True
  | .container _ (some id) => id.text.toList ≠ newWord
  | .container _ none => True
  | .unit application _ =>
      (∀ c, application.toList.head? = some c → isBlank c = false) ∧ ':' ∉ application.toList
  | .new => True

/-! ## The shapes of directives -/

theorem parseUnit_eq_ok_iff {directive target : List Char} {p : Placement} :
    parseUnit directive target = .ok p ↔
      ∃ application index n, target = application ++ '/' :: index ∧ '/' ∉ application ∧
        application ≠ [] ∧ natural? 32 index = some n ∧
        p = .unit (String.ofList application) n := by
  unfold parseUnit
  constructor
  · intro h
    split at h
    · cases h
    next application index hcut =>
      obtain ⟨rfl, hslash⟩ := cutFirst_eq_some.mp hcut
      split at h
      next n hindex =>
        split at h
        · cases h
        next hne =>
          cases h
          exact ⟨application, index, n, rfl, hslash, by simpa using hne, hindex, rfl⟩
      · cases h
  · rintro ⟨application, index, n, rfl, hslash, hne, hindex, rfl⟩
    simp [cutFirst_eq_some.mpr ⟨rfl, hslash⟩, hindex, hne]

theorem parseContainer_eq_ok_iff {directive target : List Char} {kind : Container}
    {p : Placement} :
    parseContainer directive kind target = .ok p ↔
      (target = newWord ∧ p = .container kind none) ∨
      (target ≠ newWord ∧ '/' ∈ target ∧ parseUnit directive target = .ok p) ∨
      (target ≠ [] ∧ target ≠ newWord ∧ '/' ∉ target ∧
        p = .container kind (some (.ofText (String.ofList target)))) := by
  unfold parseContainer
  split_ifs with hempty hnew hslash
  · have hnil : target = [] := by simpa using hempty
    subst hnil
    simp [newWord]
  · simp [hnew, eq_comm]
  · have hmem : '/' ∈ target := by simpa using hslash
    simp [hnew, hmem]
  · have hmem : '/' ∉ target := by simpa using hslash
    have hne : target ≠ [] := by simpa using hempty
    simp [hnew, hmem, hne, eq_comm]

inductive Reads (directive : List Char) : Placement → Prop
  | new (h : directive = newWord) : Reads directive .new
  | container {name target : List Char} {kind : Container} {p : Placement}
      (hcut : cutFirst ':' directive = some (name, target))
      (hkind : Container.ofName? name = some kind)
      (hread : parseContainer directive kind target = .ok p) : Reads directive p
  | newContainer {kind : Container} (hcolon : ':' ∉ directive)
      (hkind : Container.ofName? directive = some kind) : Reads directive (.container kind none)
  | unit {p : Placement} (hcolon : ':' ∉ directive) (hslash : '/' ∈ directive)
      (hread : parseUnit directive directive = .ok p) : Reads directive p
  | machine (hne : directive ≠ []) (hnew : directive ≠ newWord) (hcolon : ':' ∉ directive)
      (hslash : '/' ∉ directive) (hkind : Container.ofName? directive = none) :
      Reads directive (.machine (.ofText (String.ofList directive)))

/-- The name of a container holds no slash. -/
theorem slash_not_mem_of_ofName? {name : List Char} {kind : Container}
    (h : Container.ofName? name = some kind) : '/' ∉ name := by
  unfold Container.ofName? at h
  split_ifs at h with hlxd hkvm
  · rw [Bool.or_eq_true, decide_eq_true_eq, decide_eq_true_eq] at hlxd
    rcases hlxd with rfl | rfl <;> decide
  · rw [hkvm]
    decide

theorem ofName?_chars (kind : Container) : Container.ofName? kind.chars = some kind := by
  cases kind <;> rfl

theorem reads_of_parseTrimmed {directive : List Char} {p : Placement}
    (h : parseTrimmed directive = .ok p) : Reads directive p := by
  unfold parseTrimmed at h
  split at h
  · cases h
  next hempty =>
    split at h
    next hnew =>
      cases h
      exact .new hnew
    next hnew =>
      split at h
      next name target hcut =>
        split at h
        next kind hkind => exact .container hcut hkind h
        · cases h
      next hcut =>
        have hcolon := cutFirst_eq_none.mp hcut
        split at h
        next kind hkind =>
          cases h
          exact .newContainer hcolon hkind
        next hkind =>
          split at h
          next hslash => exact .unit hcolon (by simpa using hslash) h
          next hslash =>
            cases h
            exact .machine (by simpa using hempty) hnew hcolon (by simpa using hslash) hkind

theorem Reads.parseTrimmed {directive : List Char} {p : Placement} (h : Reads directive p) :
    Placement.parseTrimmed directive = .ok p := by
  unfold Placement.parseTrimmed
  cases h with
  | new h => simp [h, newWord]
  | container hcut hkind hread =>
      have hdirective := (cutFirst_eq_some.mp hcut).1
      have hne : directive ≠ [] := by simp [hdirective]
      have hnew : directive ≠ newWord := by
        rintro rfl
        simp [newWord, cutFirst] at hcut
      simp [hne, hnew, hcut, hkind, hread]
  | newContainer hcolon hkind =>
      have hne : directive ≠ [] ∧ directive ≠ newWord := by
        constructor <;> rintro rfl <;> cases hkind
      simp [hne, cutFirst_eq_none.mpr hcolon, hkind]
  | unit hcolon hslash hread =>
      have hne : directive ≠ [] ∧ directive ≠ newWord := by
        constructor <;> rintro rfl <;> simp [newWord] at hslash
      have hkind : Container.ofName? directive = none := by
        cases hname : Container.ofName? directive with
        | none => rfl
        | some kind => exact absurd hslash (slash_not_mem_of_ofName? hname)
      simp [hne, cutFirst_eq_none.mpr hcolon, hkind, hslash, hread]
  | machine hne hnew hcolon hslash hkind =>
      simp [hne, hnew, cutFirst_eq_none.mpr hcolon, hkind, hslash]

/-- A directive is read exactly as its shape says. -/
theorem parseTrimmed_eq_ok_iff {directive : List Char} {p : Placement} :
    parseTrimmed directive = .ok p ↔ Reads directive p :=
  ⟨reads_of_parseTrimmed, Reads.parseTrimmed⟩

/-! ## What reading guarantees -/

theorem toList_ofText (cs : List Char) :
    (MachineId.ofText (String.ofList cs)).text.toList = trim cs := by
  simp [MachineId.ofText, trimmed]

/-- The target of a directive does not end with a blank, since the directive does not. -/
theorem isBlank_of_getLast?_target {s : String} {name target : List Char}
    (hcut : cutFirst ':' (trim s.toList) = some (name, target)) :
    ∀ c, target.getLast? = some c → isBlank c = false := by
  intro c hc
  have hlast : (trim s.toList).getLast? = some c := by
    rw [(cutFirst_eq_some.mp hcut).1, ← List.singleton_append, ← List.append_assoc,
      List.getLast?_append, hc]
    rfl
  exact isBlank_of_getLast?_trim hlast

theorem isReadable_of_parseUnit {directive target : List Char} {p : Placement}
    (h : parseUnit directive target = .ok p) : p.IsReadable := by
  obtain ⟨application, index, n, -, hslash, hne, hindex, rfl⟩ := parseUnit_eq_ok_iff.mp h
  exact ⟨by simpa using hne, by simpa using hslash, lt_wordSize_of_natural? hindex⟩

theorem isReadable_of_parse {s : String} {p : Placement} (h : parse s = .ok p) :
    p.IsReadable := by
  cases parseTrimmed_eq_ok_iff.mp h with
  | new h => trivial
  | newContainer hcolon hkind => trivial
  | unit hcolon hslash hread => exact isReadable_of_parseUnit hread
  | machine hne hnew hcolon hslash hkind =>
      have htext := toList_ofText (trim s.toList)
      rw [trim_trim] at htext
      simp only [IsReadable, htext]
      exact ⟨hne, hnew, hcolon, hslash, hkind⟩
  | @container name target kind _ hcut hkind hread =>
      rcases parseContainer_eq_ok_iff.mp hread with ⟨-, rfl⟩ | ⟨-, -, hread⟩ | ⟨hne, -, hslash, rfl⟩
      · trivial
      · exact isReadable_of_parseUnit hread
      · simp only [IsReadable, toList_ofText]
        exact ⟨trim_ne_nil hne (isBlank_of_getLast?_target hcut),
          fun hmem => hslash (mem_of_mem_trim hmem)⟩

/-! ## The canonical text -/

theorem trim_toList_text (id : MachineId) : trim id.text.toList = id.text.toList := by
  have h := congrArg String.toList id.trimmed_text
  rwa [trimmed, String.toList_ofList] at h

theorem ofText_text (id : MachineId) : MachineId.ofText (String.ofList id.text.toList) = id := by
  refine MachineId.ext ?_
  simpa [MachineId.ofText] using id.trimmed_text

/-- Of the text of a unit, only blanks before the application are dropped. -/
theorem trim_unitChars (application : List Char) (n : Nat) :
    trim (application ++ '/' :: decimal n) =
      application.dropWhile isBlank ++ '/' :: decimal n := by
  have hlast : ∀ c, (application ++ '/' :: decimal n).getLast? = some c → isBlank c = false := by
    intro c hc
    have hmem : c ∈ '/' :: decimal n := by
      rw [List.getLast?_append_of_ne_nil _ (by simp)] at hc
      exact List.mem_of_getLast? hc
    rcases List.mem_cons.mp hmem with rfl | hdigit
    · decide
    · exact isBlank_of_isDigit (isDigit_of_mem_decimal hdigit)
  have hslash : ('/' :: decimal n).dropWhile isBlank = '/' :: decimal n := by
    simp [show isBlank '/' = false by decide]
  rw [trim_of_getLast? hlast, List.dropWhile_append, hslash]
  split
  next hempty => simp [List.isEmpty_iff.mp hempty]
  · rfl

theorem reads_container {kind : Container} {target : List Char} {p : Placement}
    (h : parseContainer (kind.chars ++ ':' :: target) kind target = .ok p) :
    Reads (kind.chars ++ ':' :: target) p :=
  .container (cutFirst_eq_some.mpr ⟨rfl, by cases kind <;> decide⟩) (ofName?_chars kind) h

theorem trim_containerChars (kind : Container) {target : List Char} (hne : target ≠ [])
    (hlast : ∀ c, target.getLast? = some c → isBlank c = false) :
    trim (kind.chars ++ ':' :: target) = kind.chars ++ ':' :: target := by
  refine trim_eq_self (fun c hc => ?_) fun c hc => hlast c ?_
  · cases kind <;> cases hc <;> decide
  · rwa [← List.singleton_append, ← List.append_assoc, List.getLast?_append_of_ne_nil _ hne] at hc

/-- A readable placement whose canonical text does not hide it is read from this text. -/
theorem parse_render_of_isPlain {p : Placement} (hreadable : p.IsReadable) (hplain : p.IsPlain) :
    parse p.render = .ok p := by
  rw [parse, render, String.toList_ofList, parseTrimmed_eq_ok_iff]
  cases p with
  | new => exact .new rfl
  | machine id =>
      obtain ⟨hne, hnew, hcolon, hslash, hkind⟩ := hreadable
      have hmachine := Reads.machine hne hnew hcolon hslash hkind
      rw [ofText_text] at hmachine
      rwa [chars, trim_toList_text]
  | container kind machine =>
      cases machine with
      | none =>
          have hlast : ∀ c, newWord.getLast? = some c → isBlank c = false := by
            rintro c ⟨⟩
            decide
          rw [chars, trim_containerChars kind (by decide) hlast]
          exact reads_container (parseContainer_eq_ok_iff.mpr (.inl ⟨rfl, rfl⟩))
      | some id =>
          obtain ⟨hne, hslash⟩ := hreadable
          have hlast : ∀ c, id.text.toList.getLast? = some c → isBlank c = false := by
            intro c hc
            rw [← trim_toList_text] at hc
            exact isBlank_of_getLast?_trim hc
          rw [chars, trim_containerChars kind hne hlast]
          exact reads_container
            (parseContainer_eq_ok_iff.mpr (.inr (.inr ⟨hne, hplain, hslash, by rw [ofText_text]⟩)))
  | unit application n =>
      obtain ⟨hne, hslash, hn⟩ := hreadable
      obtain ⟨hhead, hcolon⟩ := hplain
      have htrim : trim (application.toList ++ '/' :: decimal n) =
          application.toList ++ '/' :: decimal n := by
        obtain ⟨c, cs, happlication⟩ := List.exists_cons_of_ne_nil hne
        have hc : isBlank c = false := hhead c (by simp [happlication])
        have hdrop : application.toList.dropWhile isBlank = application.toList := by
          simp [happlication, hc]
        rw [trim_unitChars, hdrop]
      have hcolonChars : ':' ∉ application.toList ++ '/' :: decimal n := by
        simpa using ⟨hcolon, colon_not_mem_of_natural? (natural?_decimal hn)⟩
      rw [chars, htrim]
      refine .unit hcolonChars (by simp) (parseUnit_eq_ok_iff.mpr
        ⟨application.toList, decimal n, n, rfl, hslash, hne, natural?_decimal hn, by simp⟩)

/-- What stands before the slash of a unit is its application, or ends in it behind a colon. -/
theorem Reads.exists_of_unit {directive : List Char} {application : String} {n : Nat}
    (h : Reads directive (.unit application n)) :
    ∃ front index, directive = front ++ '/' :: index ∧ '/' ∉ front ∧
      (':' ∉ directive ∧ front = application.toList ∨
        ∃ name, front = name ++ ':' :: application.toList) := by
  cases h with
  | unit hcolon _ hread =>
      obtain ⟨front, index, m, heq, hfront, -, -, hunit⟩ := parseUnit_eq_ok_iff.mp hread
      cases hunit
      exact ⟨front, index, heq, hfront, .inl ⟨hcolon, String.toList_ofList.symm⟩⟩
  | @container name target kind _ hcut hkind hread =>
      rcases parseContainer_eq_ok_iff.mp hread with ⟨-, hnone⟩ | ⟨-, -, hread⟩ | ⟨-, -, -, hsome⟩
      · cases hnone
      · obtain ⟨front, index, m, rfl, hfront, -, -, hunit⟩ := parseUnit_eq_ok_iff.mp hread
        cases hunit
        refine ⟨name ++ ':' :: front, index, by simpa using (cutFirst_eq_some.mp hcut).1, ?_,
          .inr ⟨name, by rw [String.toList_ofList]⟩⟩
        simpa using ⟨slash_not_mem_of_ofName? hkind, hfront⟩
      · cases hsome

/-- A placement that is read from its canonical text is not hidden by it. -/
theorem isPlain_of_parse_render {p : Placement} (hreadable : p.IsReadable)
    (h : parse p.render = .ok p) : p.IsPlain := by
  rw [parse, render, String.toList_ofList] at h
  cases p with
  | new => trivial
  | machine id => trivial
  | container kind machine =>
      cases machine with
      | none => trivial
      | some id =>
          intro hnew
          rw [chars, hnew] at h
          cases kind <;> cases h
  | unit application n =>
      obtain ⟨-, hslash, -⟩ := hreadable
      rw [chars, trim_unitChars, parseTrimmed_eq_ok_iff] at h
      obtain ⟨front, index, heq, hfront, hread⟩ := h.exists_of_unit
      have hdropped : '/' ∉ application.toList.dropWhile isBlank := fun hmem =>
        hslash ((List.dropWhile_suffix isBlank).mem hmem)
      -- The text has only one slash before its digits, and is cut there.
      have hcut := (cutFirst_eq_some.mpr ⟨rfl, hdropped⟩).symm.trans
        (cutFirst_eq_some.mpr ⟨heq, hfront⟩)
      obtain rfl : application.toList.dropWhile isBlank = front :=
        congrArg Prod.fst (Option.some.inj hcut)
      rcases hread with ⟨hcolon, hsame⟩ | ⟨name, hlonger⟩
      · have hhead := List.head?_dropWhile_not isBlank application.toList
        rw [hsame] at hcolon hhead
        refine ⟨fun c hc => ?_, fun hmem => hcolon (List.mem_append_left _ hmem)⟩
        rw [hc] at hhead
        simpa using hhead
      · -- What is left of the application would be longer than the application.
        have hlength := congrArg List.length hlonger
        have hle := (List.dropWhile_suffix (l := application.toList) isBlank).length_le
        simp only [List.length_append, List.length_cons] at hlength
        omega

/-! ## Directives -/

/-- The text behind the first colon of a directive does not hide what it names: as a unit it neither
begins with a blank nor holds another colon, and it is not the word for a new machine behind
blanks. -/
def IsPlainTarget (target : List Char) : Prop :=
  if '/' ∈ target then
    (∀ c, target.head? = some c → isBlank c = false) ∧ ':' ∉ target
  else trim target = newWord → target = newWord

theorem isPlain_unit_iff_target {application index : List Char} {n : Nat}
    (hne : application ≠ []) (hindex : natural? 32 index = some n) :
    IsPlain (.unit (String.ofList application) n) ↔
      IsPlainTarget (application ++ '/' :: index) := by
  have hcolon := colon_not_mem_of_natural? hindex
  obtain ⟨c, cs, rfl⟩ := List.exists_cons_of_ne_nil hne
  simp [IsPlain, IsPlainTarget, hcolon]

/-- Only what stands behind a colon can hide a placement. -/
theorem isPlain_iff_target {s : String} {p : Placement} (h : parse s = .ok p) :
    p.IsPlain ↔ ∀ name target, cutFirst ':' (trim s.toList) = some (name, target) →
      IsPlainTarget target := by
  have hvacuous : ':' ∉ trim s.toList → ∀ name target,
      cutFirst ':' (trim s.toList) = some (name, target) → IsPlainTarget target := by
    intro hcolon name target hcut
    rw [cutFirst_eq_none.mpr hcolon] at hcut
    cases hcut
  cases parseTrimmed_eq_ok_iff.mp h with
  | new hnew => exact iff_of_true trivial (hvacuous (by rw [hnew]; decide))
  | newContainer hcolon hkind => exact iff_of_true trivial (hvacuous hcolon)
  | machine hne hnew hcolon hslash hkind => exact iff_of_true trivial (hvacuous hcolon)
  | unit hcolon hslash hread =>
      obtain ⟨application, index, n, heq, -, hne, hindex, rfl⟩ := parseUnit_eq_ok_iff.mp hread
      refine iff_of_true ((isPlain_unit_iff_target hne hindex).mpr ?_) (hvacuous hcolon)
      rw [← heq, IsPlainTarget, if_pos hslash]
      exact ⟨fun c hc => isBlank_of_head?_trim hc, hcolon⟩
  | @container name target kind _ hcut hkind hread =>
      have honly : (∀ name' target', cutFirst ':' (trim s.toList) = some (name', target') →
          IsPlainTarget target') ↔ IsPlainTarget target := by
        simp [hcut]
      rw [honly]
      rcases parseContainer_eq_ok_iff.mp hread with
        ⟨rfl, rfl⟩ | ⟨-, -, hread⟩ | ⟨-, hnew, hslash, rfl⟩
      · exact iff_of_true trivial (fun _ => rfl)
      · obtain ⟨application, index, n, rfl, -, hne, hindex, rfl⟩ := parseUnit_eq_ok_iff.mp hread
        exact isPlain_unit_iff_target hne hindex
      · rw [IsPlainTarget, if_neg hslash, IsPlain, toList_ofText]
        simp [hnew]

/-! ## Reading again -/

/-- A placement that was read is read again from its canonical text exactly if it is plain, and then
no other plain placement has this text. It is not plain only where the text behind the colon of its
directive hides the word for a new machine behind blanks, or names a unit with a blank before it or
another colon in it. -/
theorem parse_canonical_iff {s : String} {p : Placement} (h : parse s = .ok p) :
    (parse p.render = .ok p ↔ p.IsPlain) ∧
      (p.IsPlain ↔ ∀ name target, cutFirst ':' (trim s.toList) = some (name, target) →
        IsPlainTarget target) ∧
      ∀ s' q, parse s' = .ok q → p.IsPlain → q.IsPlain → (q.render = p.render ↔ q = p) := by
  have hreadable := isReadable_of_parse h
  refine ⟨⟨isPlain_of_parse_render hreadable, parse_render_of_isPlain hreadable⟩,
    isPlain_iff_target h, fun s' q hq hp hplain => ⟨fun hrender => ?_, fun heq => heq ▸ rfl⟩⟩
  have hread := parse_render_of_isPlain (isReadable_of_parse hq) hplain
  rw [hrender, parse_render_of_isPlain hreadable hp] at hread
  exact (Except.ok.inj hread).symm

/-- The blanks and the sign are dropped, and the application keeps its blank. -/
theorem parse_canonical_iff_unit :
    parse "lxc:nova compute/+02 " = .ok (.unit "nova compute" 2) ∧
      parse (render (.unit "nova compute" 2)) = .ok (.unit "nova compute" 2) ∧
      ∀ s' q, parse s' = .ok q → q.IsPlain → q.render = "nova compute/2" →
        q = .unit "nova compute" 2 := by
  have hread : parse "lxc:nova compute/+02 " = .ok (.unit "nova compute" 2) := by decide +kernel
  obtain ⟨hagain, -, hinj⟩ := parse_canonical_iff hread
  have hplain : IsPlain (.unit "nova compute" 2) := by
    refine ⟨?_, by decide⟩
    rintro c ⟨⟩
    decide
  have hrender : render (.unit "nova compute" 2) = "nova compute/2" := by decide +kernel
  exact ⟨hread, hagain.mpr hplain, fun s' q hq hqplain h =>
    (hinj s' q hq hplain hqplain).mp (h.trans hrender.symm)⟩

/-- A blank hides the word for a new machine, and the application of a unit. A colon in an
application is read as one behind a container. -/
theorem placement_hidden :
    (parse "lxd: new" = .ok (.container .lxd (some (.ofText "new"))) ∧
      render (.container .lxd (some (.ofText "new"))) = "lxd:new" ∧
      parse "lxd:new" = .ok (.container .lxd none)) ∧
    (parse "lxd: app/0" = .ok (.unit " app" 0) ∧ render (.unit " app" 0) = " app/0" ∧
      parse " app/0" = .ok (.unit "app" 0)) ∧
    parse "lxd:a:b/0" = .ok (.unit "a:b" 0) ∧ render (.unit "a:b" 0) = "a:b/0" ∧
      parse "a:b/0" = .error (.unknownContainer "a") := by
  decide +kernel

end Placement

end BundleCheck
