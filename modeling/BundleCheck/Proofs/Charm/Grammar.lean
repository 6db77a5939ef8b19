import BundleCheck.Proofs.Charm.Names

/-! # The grammar of charm references

A reference is a path to a directory, or it is made of a schema, an owner, a series and a name, of
which only the name must be there. The reader accepts the texts of this grammar and no others, and
finds in each the parts that it is made of. -/

namespace BundleCheck.CharmRef

open Text

/-! ## Paths to a directory -/

def BeginsAsPath (text : List Char) : Prop :=
  ['.', '/'] <+: text ∨ ['.', '.', '/'] <+: text ∨ ['/'] <+: text

/-- The last segment of a path, the slashes at its end aside. -/
def finalSegment (path : List Char) : List Char :=
  (pieces (· == '/') (path.rdropWhile (· == '/'))).getLast (pieces_ne_nil _)

theorem isPathLike_iff {text : List Char} : isPathLike text = true ↔ BeginsAsPath text := by
  simp [isPathLike, BeginsAsPath, or_assoc]

theorem lastSegment_eq (path : List Char) : lastSegment path = finalSegment path := by
  rw [finalSegment, getLast_pieces]
  simp [lastSegment, List.rtakeWhile, List.rdropWhile]

def IsDirectoryPath (text : List Char) : Prop :=
  BeginsAsPath text ∧ finalSegment text ∉ [[], ['.'], ['.', '.']]

theorem parseDirectory_eq_ok_iff {path : List Char} {r : CharmRef} :
    parseDirectory path = .ok r ↔
      finalSegment path ∉ [[], ['.'], ['.', '.']] ∧ r = .directory (String.ofList path) := by
  have hcond : (lastSegment path).isEmpty || lastSegment path == ['.'] ||
      lastSegment path == ['.', '.'] ↔ finalSegment path ∈ [[], ['.'], ['.', '.']] := by
    simp [lastSegment_eq, or_assoc]
  simp only [parseDirectory]
  by_cases hsegment : finalSegment path ∈ [[], ['.'], ['.', '.']]
  · rw [if_pos (hcond.mpr hsegment)]
    simp [hsegment]
  · rw [if_neg (mt hcond.mp hsegment)]
    simp [hsegment, eq_comm]

/-! ## References to a store -/

def schemaChars (schema : Option Store) : List Char :=
  schema.elim [] fun store => store.schema ++ [':']

/-- The text is `[schema:][~owner/][series/]last`, where `last` is a name, perhaps with its
revision, and does not begin like a path. Without a schema it holds no colon, and without an owner
the series does not begin like one. -/
structure IsReference (text : List Char) (schema : Option Store) (owner series : Option String)
    (last : List Char) : Prop where
  text_eq :
    text = schemaChars schema ++ (ownerChars owner ++ (seriesChars series ++ last))
  not_path : ¬ BeginsAsPath text
  no_colon : schema = none → ':' ∉ text
  owner_segment : ∀ o, owner = some o → IsSegment o
  series_segment : ∀ s, series = some s → IsSegment s
  series_head : owner = none → ∀ s, series = some s → s.toList.head? ≠ some '~'
  last_name : last ∈ nameExpression.matches'

theorem ofSchema?_eq_some_iff {schema : List Char} {store : Store} :
    Store.ofSchema? schema = some store ↔ schema = store.schema := by
  unfold Store.ofSchema?
  cases store <;> split_ifs <;> simp_all [Store.schema]

/-- A schema is read exactly where one was written, and none only where no colon stands. -/
theorem parseStore_eq_ok_iff {text rest : List Char} {store : Store} :
    parseStore text = .ok (store, rest) ↔
      ∃ schema : Option Store, text = schemaChars schema ++ rest ∧
        (schema = none → ':' ∉ text) ∧ store = schema.getD .charmhub := by
  constructor
  · intro h
    unfold parseStore at h
    split at h
    next hcut =>
      cases h
      exact ⟨none, rfl, fun _ => cutFirst_eq_none.mp hcut, rfl⟩
    next schema rest' hcut =>
      split at h
      next hstore =>
        cases h
        obtain ⟨htext, -⟩ := cutFirst_eq_some.mp hcut
        refine ⟨some store, ?_, nofun, rfl⟩
        simp [schemaChars, htext, ofSchema?_eq_some_iff.mp hstore]
      · cases h
  · rintro ⟨schema, rfl, hcolon, rfl⟩
    cases schema with
    | none =>
        have hcut : cutFirst ':' rest = none :=
          cutFirst_eq_none.mpr (by simpa [schemaChars] using hcolon rfl)
        simp [parseStore, schemaChars, hcut]
    | some store => simpa [schemaChars] using parseStore_schema store rest

/-- A name does not begin like an owner, so that only a series can. -/
theorem head?_seriesChars_append {series : Option String} {last : List Char}
    (hseries : ∀ s, series = some s → IsSegment s) (hlast : isValidName last = true) :
    (seriesChars series ++ last).head? ≠ some '~' ↔
      ∀ s, series = some s → s.toList.head? ≠ some '~' := by
  cases series with
  | none =>
      obtain ⟨c, cs, rfl, hc⟩ := head?_of_isValidName hlast
      simp [seriesChars, hc]
  | some s =>
      obtain ⟨c, cs, hs⟩ := List.exists_cons_of_ne_nil (hseries s rfl).1
      simp [seriesChars, hs]

/-- A reference to a store is read by the parts that its text is made of. -/
theorem parseStored_eq_ok_iff {text : List Char} {r : CharmRef} (hpath : ¬ BeginsAsPath text) :
    parseStored text = .ok r ↔
      ∃ schema owner series last, IsReference text schema owner series last ∧
        r = .stored (schema.getD .charmhub) owner series (String.ofList (splitRevision last).1)
          (splitRevision last).2 := by
  rw [parseStored, bind_eq_ok_iff]
  constructor
  · rintro ⟨⟨store, afterStore⟩, hstore, hread⟩
    obtain ⟨⟨owner, afterOwner⟩, howner, hreadOwned⟩ := bind_eq_ok_iff.mp hread
    obtain ⟨⟨series, last⟩, hseries, hlastRead⟩ := bind_eq_ok_iff.mp hreadOwned
    obtain ⟨schema, htext, hcolon, rfl⟩ := parseStore_eq_ok_iff.mp hstore
    obtain ⟨rfl, hownerSegment, htilde⟩ := parseOwner_eq_ok_iff.mp howner
    obtain ⟨rfl, -, hseriesSegment⟩ := parseSeries_eq_ok_iff.mp hseries
    simp only at hlastRead
    split at hlastRead
    next hname =>
      cases hlastRead
      have hlast : isValidName last = true := (isValidName_splitRevision last).symm.trans hname
      refine ⟨schema, owner, series, last, ⟨htext, hpath, hcolon, hownerSegment,
        hseriesSegment, ?_, isValidName_iff_mem.mp hlast⟩, rfl⟩
      rintro rfl
      exact (head?_seriesChars_append hseriesSegment hlast).mp (htilde rfl)
    · cases hlastRead
  · rintro ⟨schema, owner, series, last, h, rfl⟩
    have hlast : isValidName last = true := isValidName_iff_mem.mpr h.last_name
    have hslash : '/' ∉ last := by
      simpa [revisionChars] using slash_not_mem_of_isValidName hlast none
    refine ⟨(_, _), parseStore_eq_ok_iff.mpr ⟨schema, h.text_eq, h.no_colon, rfl⟩,
      bind_eq_ok_iff.mpr ⟨(owner, _), parseOwner_eq_ok_iff.mpr ⟨rfl, h.owner_segment, ?_⟩,
      bind_eq_ok_iff.mpr ⟨(series, last), parseSeries_eq_ok_iff.mpr
        ⟨rfl, hslash, h.series_segment⟩, ?_⟩⟩⟩
    · rintro rfl
      exact (head?_seriesChars_append h.series_segment hlast).mpr (h.series_head rfl)
    · simp [isValidName_splitRevision, hlast]

/-! ## The grammar -/

/-- What a text without blanks around it denotes. -/
inductive Denotes (text : List Char) : CharmRef → Prop
  | directory (h : IsDirectoryPath text) : Denotes text (.directory (String.ofList text))
  | stored {schema : Option Store} {owner series : Option String} {last name : List Char}
      {revision : Option Nat} (h : IsReference text schema owner series last)
      (hcuts : Cuts last name revision) :
      Denotes text (.stored (schema.getD .charmhub) owner series (String.ofList name) revision)

theorem IsReference.head?_ne_hyphen {text last : List Char} {schema : Option Store}
    {owner series : Option String} (h : IsReference text schema owner series last) :
    last.head? ≠ some '-' := by
  obtain ⟨c, first, groups, rfl, hc, -⟩ := mem_nameExpression_iff.mp h.last_name
  rw [joinWith_cons]
  rintro ⟨⟩
  exact absurd hc (by decide)

theorem parse_of_beginsAsPath {s : String} (h : BeginsAsPath (trim s.toList)) :
    parse s = parseDirectory (trim s.toList) := by
  have hne : (trim s.toList).isEmpty = false := by
    cases htrim : trim s.toList with
    | nil => simp [htrim, BeginsAsPath] at h
    | cons c cs => rfl
  simp [parse, hne, isPathLike_iff.mpr h]

theorem parse_eq_ok_iff_parseStored {s : String} {r : CharmRef}
    (h : ¬ BeginsAsPath (trim s.toList)) :
    parse s = .ok r ↔ parseStored (trim s.toList) = .ok r := by
  have hpath : isPathLike (trim s.toList) = false := by
    simpa using mt isPathLike_iff.mp h
  cases htrim : trim s.toList with
  | nil =>
      -- An empty text has no valid name either.
      simp only [parse, htrim]
      refine iff_of_false (fun h => ?_) (fun h => ?_)
      · cases h
      · cases h
  | cons c cs =>
      have hne : (trim s.toList).isEmpty = false := by simp [htrim]
      rw [← htrim]
      simp [parse, hne, hpath]

theorem parse_eq_ok_iff_denotes {s : String} {r : CharmRef} :
    parse s = .ok r ↔ Denotes (trim s.toList) r := by
  by_cases hpath : BeginsAsPath (trim s.toList)
  · rw [parse_of_beginsAsPath hpath, parseDirectory_eq_ok_iff]
    constructor
    · rintro ⟨hsegment, rfl⟩
      exact .directory ⟨hpath, hsegment⟩
    · rintro (⟨-, hsegment⟩ | ⟨href, -⟩)
      · exact ⟨hsegment, rfl⟩
      · exact absurd hpath href.not_path
  · rw [parse_eq_ok_iff_parseStored hpath, parseStored_eq_ok_iff hpath]
    constructor
    · rintro ⟨schema, owner, series, last, href, rfl⟩
      exact .stored href ((cuts_iff href.head?_ne_hyphen).mpr rfl)
    · rintro (⟨hbegins, -⟩ | ⟨href, hcuts⟩)
      · exact absurd hbegins hpath
      · refine ⟨_, _, _, _, href, ?_⟩
        rw [(cuts_iff href.head?_ne_hyphen).mp hcuts]

/-- A text is read as a reference exactly if it is a path to a directory with a name of its own or
follows the grammar of references, and it is read as what it denotes there. -/
theorem parse_grammar (s : String) :
    ((∃ r, parse s = .ok r) ↔
      IsDirectoryPath (trim s.toList) ∨
        ∃ schema owner series last, IsReference (trim s.toList) schema owner series last) ∧
    ∀ r, parse s = .ok r ↔ Denotes (trim s.toList) r := by
  refine ⟨?_, fun r => parse_eq_ok_iff_denotes⟩
  simp only [parse_eq_ok_iff_denotes]
  constructor
  · rintro ⟨r, hpath | ⟨href, -⟩⟩
    · exact .inl hpath
    · exact .inr ⟨_, _, _, _, href⟩
  · rintro (hpath | ⟨schema, owner, series, last, href⟩)
    · exact ⟨_, .directory hpath⟩
    · exact ⟨_, .stored href ((cuts_iff href.head?_ne_hyphen).mpr rfl)⟩

end BundleCheck.CharmRef
