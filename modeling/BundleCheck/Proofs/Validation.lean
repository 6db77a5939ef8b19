import BundleCheck.Command
import BundleCheck.Proofs.Check.Settings
import BundleCheck.Proofs.Load.Reads
import BundleCheck.Proofs.Yaml.Json

/-! # Verdicts on files

Each file that is validated gets an outcome of its own, in which other files have a part only if it
includes them. The command fails exactly if some file has not passed, and counts them. -/

namespace BundleCheck

open Yaml

/-! ## Outcomes -/

namespace Outcome

variable {o : Outcome}

theorem isPlain_encodeFinding (f : Finding) : Json.IsPlain (encodeFinding f) :=
  .mapping (by simp) (by simp [Json.IsPlain.string])

theorem isPlain_of_encode {item : Value} (h : o.encode = .ok item) : Json.IsPlain item := by
  have hfindings : ∀ report : Report,
      Json.IsPlain (.sequence (report.map encodeFinding)) := fun report =>
    .sequence (List.forall_mem_map.mpr fun f _ => isPlain_encodeFinding f)
  have hnone := hfindings []
  unfold encode at h
  split at h
  · cases hresult : o.result with
    | ok report =>
        rw [hresult] at h
        cases h
        exact .mapping (by simp) (by simp [Json.IsPlain.string, Json.IsPlain.bool, hfindings])
    | error failure =>
        rw [hresult] at h
        cases h
        exact .mapping (by simp) (by simpa [Json.IsPlain.string, Json.IsPlain.bool] using hnone)
  · cases h

/-- An outcome as data begins with the path and whether the file has passed. -/
theorem exists_encode_eq {path : String} (h : o.path.text? = some path) :
    ∃ rest : Mapping, o.encode = .ok (.mapping
      ((.string "path", .string path) :: (.string "passed", .bool o.passed) :: rest)) := by
  rw [encode, h]
  exact ⟨_, rfl⟩

theorem encode_eq_error_iff {cause : JsonError} :
    o.encode = .error cause ↔ o.path.text? = none ∧ cause = .pathNotText := by
  unfold encode
  cases o.path.text? <;> simp [eq_comm]

end Outcome

/-! ## Files that pass -/

variable {tree : FileTree} {config : Config} {overlays : List FilePath} {path : FilePath}

/-- The file is loaded with the overlays, and no finding about it is an error. -/
def Passes (tree : FileTree) (config : Config) (overlays : List FilePath) (path : FilePath) :
    Prop :=
  ∃ b, loadFile tree path overlays = .ok b ∧ ∀ f ∈ config.check b, f.severity ≠ .error

theorem Outcome.passed_ofFile_iff :
    (Outcome.ofFile tree config overlays path).passed = true ↔
      Passes tree config overlays path := by
  unfold Outcome.passed Outcome.ofFile Passes
  cases loadFile tree path overlays with
  | error failure => simp [Except.map]
  | ok b => simp [Except.map, Report.hasErrors]

instance (tree : FileTree) (config : Config) (overlays : List FilePath) (path : FilePath) :
    Decidable (Passes tree config overlays path) :=
  decidable_of_iff _ Outcome.passed_ofFile_iff

theorem Outcome.passed_ofFile_eq (tree : FileTree) (config : Config) (overlays : List FilePath)
    (path : FilePath) : (Outcome.ofFile tree config overlays path).passed =
      decide (Passes tree config overlays path) := by
  rw [Bool.eq_iff_iff, Outcome.passed_ofFile_iff, decide_eq_true_iff]

/-- In a strict check, every finding that is not ignored is an error. -/
theorem passes_iff_of_strict {b : Bundle} (hstrict : config.strict = true)
    (hb : loadFile tree path overlays = .ok b) :
    Passes tree config overlays path ↔
      ∀ f ∈ Config.check {} b, config.ignores f.rule = true := by
  have herror : ∀ f, (config.weigh f).severity = .error := fun f => by
    rw [Config.weigh, if_pos hstrict, Config.asError]
  have hpasses : Passes tree config overlays path ↔ ∀ f ∈ config.check b, f.severity ≠ .error := by
    simp [Passes, hb]
  rw [hpasses, config.check_eq_filter_map b, List.forall_mem_map]
  simp [herror]

/-! ## Reports -/

def field? (item : Value) (name : String) : Option Value :=
  item.entries?.bind fun fields => fields.getName? name

/-- The item of a report that is about a file. -/
structure IsVerdict (tree : FileTree) (config : Config) (overlays : List FilePath)
    (path : FilePath) (item : Value) : Prop where
  of_outcome : (Outcome.ofFile tree config overlays path).encode = .ok item
  names : ∃ text, path.text? = some text ∧ field? item "path" = some (.string text)
  passed : field? item "passed" = some (.bool (decide (Passes tree config overlays path)))

theorem exists_isVerdict (tree : FileTree) (config : Config) (overlays : List FilePath)
    (hpath : path.text?.isSome) :
    ∃ item, (Outcome.ofFile tree config overlays path).encode = .ok item ∧
      IsVerdict tree config overlays path item := by
  obtain ⟨text, htext⟩ := Option.isSome_iff_exists.mp hpath
  obtain ⟨rest, hencode⟩ := Outcome.exists_encode_eq
    (o := Outcome.ofFile tree config overlays path) htext
  rw [Outcome.passed_ofFile_eq] at hencode
  exact ⟨_, hencode, hencode, ⟨text, htext, rfl⟩, rfl⟩

/-- There is a report if the paths of all files are texts, and reading it gives their verdicts. -/
theorem exists_json (tree : FileTree) (config : Config) (overlays : List FilePath)
    {files : List FilePath} (hfiles : ∀ path ∈ files, path.text?.isSome) :
    ∃ report items, Validation.json (files.map (Outcome.ofFile tree config overlays)) = .ok report ∧
      Json.read? report = some (.sequence items) ∧
      List.Forall₂ (IsVerdict tree config overlays) files items := by
  obtain ⟨items, hitems, hverdicts⟩ :=
    exists_mapM_forall₂ (R := fun item path => IsVerdict tree config overlays path item)
      fun path hpath => exists_isVerdict tree config overlays (hfiles path hpath)
  have hplain : Json.IsPlain (.sequence items) := .sequence fun item hitem => by
    obtain ⟨path, -, hverdict⟩ := exists_of_mem_right hverdicts.flip hitem
    exact Outcome.isPlain_of_encode hverdict.of_outcome
  obtain ⟨text, htext, hread⟩ := hplain.read?_writeJson
  refine ⟨text ++ "\n", items, ?_, hread, hverdicts.flip⟩
  have hencoded : (files.map (Outcome.ofFile tree config overlays)).mapM Outcome.encode =
      .ok items := by
    rw [List.mapM_map]
    exact hitems
  rw [Validation.json, hencoded, ok_bind, htext]

/-- There is no report if the path of some file is not a text. -/
theorem json_eq_error (tree : FileTree) (config : Config) (overlays : List FilePath)
    {files : List FilePath} (hfiles : ∃ path ∈ files, path.text? = none) :
    Validation.json (files.map (Outcome.ofFile tree config overlays)) =
      .error (.renderFailed .pathNotText) := by
  obtain ⟨path, hpath, hnone⟩ := hfiles
  cases hencoded : (files.map (Outcome.ofFile tree config overlays)).mapM Outcome.encode with
  | ok items =>
      obtain ⟨item, hitem⟩ := exists_mapM_eq_ok_iff.mp ⟨items, hencoded⟩ _
        (List.mem_map_of_mem hpath)
      rw [Outcome.encode_eq_error_iff.mpr ⟨hnone, rfl⟩] at hitem
      cases hitem
  | error cause =>
      have hfailed := verdict_eq_error_iff.mpr hencoded
      rw [verdict_mapM, forM_eq_error_iff] at hfailed
      obtain ⟨-, o, -, -, -, ho⟩ := hfailed
      obtain ⟨-, rfl⟩ := Outcome.encode_eq_error_iff.mp (verdict_eq_error_iff.mp ho)
      rw [Validation.json, hencoded]
      rfl

theorem failed_ofFile (files : List FilePath) :
    Validation.failed (files.map (Outcome.ofFile tree config overlays)) =
      files.countP fun path => ¬ Passes tree config overlays path := by
  rw [Validation.failed, List.countP_map]
  refine List.countP_congr fun path _ => ?_
  simp [Outcome.passed_ofFile_eq]

/-! ## Runs -/

/-- A validation gets as far as its files: its settings are found and valid, and its arguments stand
for files. -/
structure Starts (around : Host) (explicit : Option FilePath) (paths : List FilePath)
    (ignored : List String) (strict : Bool) (config : Config) (files : List FilePath) : Prop where
  found : ∃ found source,
    Config.discover around.files explicit around.directory around.userDirectory =
      .ok (found, source) ∧ config = found.withOverrides strict ignored
  valid : config.validate = .ok ()
  files : BundleFiles.collect around.files paths = .ok files

/-- The report in a format. There may be none as data. -/
def reportIn (format : ReportFormat) (outcomes : List Outcome) : Except Failure String :=
  match format with
  | .text => .ok (Validation.text outcomes)
  | .json => Validation.json outcomes

theorem exists_reportIn (tree : FileTree) (config : Config) (overlays : List FilePath)
    {files : List FilePath} {format : ReportFormat}
    (hfiles : format = .json → ∀ path ∈ files, path.text?.isSome) :
    ∃ report, reportIn format (files.map (Outcome.ofFile tree config overlays)) = .ok report := by
  cases format with
  | text => exact ⟨_, rfl⟩
  | json =>
      obtain ⟨report, -, hreport, -⟩ := exists_json tree config overlays (hfiles rfl)
      exact ⟨report, hreport⟩

/-- The answer to a validation that gets as far as its files. Without a report it says nothing
about them. -/
theorem run_validate {around : Host} {explicit : Option FilePath} {paths files : List FilePath}
    {ignored : List String} {strict : Bool}
    (h : Starts around explicit paths ignored strict config files) (overlays : List FilePath)
    (format : ReportFormat) :
    Command.run around explicit (.validate paths overlays strict ignored format) =
      match reportIn format (files.map (Outcome.ofFile around.files config overlays)) with
      | .ok output =>
          { output
            failure :=
              let k := files.countP fun path => ¬ Passes around.files config overlays path
              if 0 < k then some (.validationFailed k) else none }
      | .error failure => { failure := some failure } := by
  obtain ⟨⟨found, source, hfound, rfl⟩, hvalid, hcollect⟩ := h
  simp only [Command.run, Command.runValidate, hfound, hvalid, hcollect, ok_bind, failed_ofFile]
  cases format with
  | text => rfl
  | json =>
      dsimp only [reportIn]
      cases Validation.json (files.map
        (Outcome.ofFile around.files (found.withOverrides strict ignored) overlays)) <;> rfl

/-- A validation that gets as far as its files gives a verdict on each of them. If their paths are
texts, reading the report gives the outcomes in order, and an outcome says whether its file passes:
whether it is loaded with the overlays, and no finding is an error. The outcome depends on the
settings and on what is read for the file and for the overlays, whatever other files there are. The
command fails exactly if some of its files do not pass, and says how many, unless the report cannot
be written. In a strict check, a file that is loaded passes exactly if all rules that it breaks are
ignored. -/
theorem validate_verdicts {around : Host} {explicit : Option FilePath}
    {paths files : List FilePath} {ignored : List String} {strict : Bool} {config : Config}
    (h : Starts around explicit paths ignored strict config files) (overlays : List FilePath) :
    ((∀ path ∈ files, path.text?.isSome) → ∃ items,
      Json.read?
        (Command.run around explicit (.validate paths overlays strict ignored .json)).output =
          some (.sequence items) ∧
      List.Forall₂ (IsVerdict around.files config overlays) files items) ∧
    (∀ tree path, (∀ p ∈ path :: overlays, ReadsAlike around.files tree p) →
      Outcome.ofFile tree config overlays path =
        Outcome.ofFile around.files config overlays path) ∧
    (∀ format, (format = .json → ∀ path ∈ files, path.text?.isSome) →
      (Command.run around explicit
        (.validate paths overlays strict ignored format)).failure.map Failure.message =
          let k := files.countP fun path => ¬ Passes around.files config overlays path
          if 0 < k then some s!"Validation failed for {k} bundle(s)" else none) ∧
    (config.strict = true → ∀ path b, loadFile around.files path overlays = .ok b →
      (Passes around.files config overlays path ↔
        ∀ f ∈ Config.check {} b, config.ignores f.rule = true)) := by
  refine ⟨fun hfiles => ?_, fun tree path hreads => ?_, fun format hfiles => ?_,
    fun hstrict path b => passes_iff_of_strict hstrict⟩
  · obtain ⟨report, items, hreport, hread, hverdicts⟩ :=
      exists_json around.files config overlays hfiles
    exact ⟨items, by rw [run_validate h, reportIn, hreport, hread], hverdicts⟩
  · rw [Outcome.ofFile, Outcome.ofFile, loadFile_congr hreads]
  · obtain ⟨report, hreport⟩ := exists_reportIn around.files config overlays hfiles
    rw [run_validate h, hreport]
    dsimp only
    split <;> rfl

def hostOf (files : List (FilePath × FileEntry)) : Host where
  files := ⟨files, []⟩
  directory := ""
  userDirectory := "home"

/-- Bundles of which one has a warning, one is clean, and one cannot be read. -/
def mixedHost : Host :=
  hostOf
    [("unused.yaml", textFile "machines:\n '0':\n"), ("clean.yaml", textFile "series: x\n"),
      ("broken.yaml", textFile "series: [\n")]

def mixedFiles : List FilePath :=
  ["broken.yaml", "clean.yaml", "unused.yaml", "lost.yaml"]

theorem validate_verdicts_mixed :
    (∃ items, Json.read? (Command.run mixedHost none
        (.validate mixedFiles [] true ["relation-*"] .json)).output = some (.sequence items) ∧
      items.map (field? · "passed") = [some (.bool false), some (.bool true), some (.bool false),
        some (.bool false)]) ∧
    (Command.run mixedHost none (.validate mixedFiles [] true ["relation-*"] .json)).failure.map
      Failure.message = some "Validation failed for 3 bundle(s)" ∧
    ¬ Passes mixedHost.files ⟨true, ["relation-*"]⟩ [] "unused.yaml" ∧
    Outcome.ofFile (hostOf [("clean.yaml", textFile "series: x\n")]).files
        ⟨true, ["relation-*"]⟩ [] "clean.yaml" =
      Outcome.ofFile mixedHost.files ⟨true, ["relation-*"]⟩ [] "clean.yaml" := by
  have hstarts : Starts mixedHost none mixedFiles ["relation-*"] true ⟨true, ["relation-*"]⟩
      mixedFiles :=
    ⟨⟨{}, none, by decide +kernel, by decide +kernel⟩, by decide +kernel, by decide +kernel⟩
  have htexts : ∀ path ∈ mixedFiles, path.text?.isSome := by decide +kernel
  obtain ⟨hreport, halike, hfailure, -⟩ := validate_verdicts hstarts []
  refine ⟨?_, ?_, by decide +kernel, halike _ _ (by decide +kernel)⟩
  · obtain ⟨items, hread, hverdicts⟩ := hreport htexts
    have hpassed : (mixedFiles.map fun path =>
        decide (Passes mixedHost.files ⟨true, ["relation-*"]⟩ [] path)) =
          [false, true, false, false] := by decide +kernel
    refine ⟨items, hread, ?_⟩
    calc items.map (field? · "passed")
      _ = mixedFiles.map fun path => some (.bool (decide (Passes mixedHost.files
            ⟨true, ["relation-*"]⟩ [] path))) := by
          rw [← List.forall₂_eq_eq_eq, List.forall₂_map_left_iff, List.forall₂_map_right_iff]
          exact hverdicts.flip.imp fun _ _ hverdict => hverdict.passed
      _ = [false, true, false, false].map fun b => some (.bool b) := by
          rw [← hpassed, List.map_map]
          rfl
  · have hcount : (mixedFiles.countP fun path =>
        ¬ Passes mixedHost.files ⟨true, ["relation-*"]⟩ [] path) = 3 := by decide +kernel
    rw [hfailure .json fun _ => htexts, hcount]
    rfl

def includingFile : FileEntry :=
  textFile ("applications:\n  a:\n    charm: ch:a\n    num_units: 1\n" ++
    "    options:\n      key: include-file://b.yaml\n")

def includingHost : Host :=
  hostOf [("a.yaml", includingFile), ("b.yaml", textFile "series: jammy\n")]

/-- The same bundle without the file that it includes. -/
def lackingHost : Host :=
  hostOf [("a.yaml", includingFile)]

def rawPath : FilePath where
  bytes := Text.utf8 "caf" ++ 0xE9 :: Text.utf8 ".yaml"

def rawHost : Host :=
  hostOf [(rawPath, textFile "series: [\n")]

/-- Another of the files can make a bundle fail that includes it, and a path that is no text hides
the verdicts. -/
theorem validate_verdict_dependent :
    Starts includingHost none ["a.yaml", "b.yaml"] [] false {} ["a.yaml", "b.yaml"] ∧
    Starts lackingHost none ["a.yaml", "b.yaml"] [] false {} ["a.yaml", "b.yaml"] ∧
    lackingHost.files.readBytes "a.yaml" = includingHost.files.readBytes "a.yaml" ∧
    Passes includingHost.files {} [] "a.yaml" ∧ ¬ Passes lackingHost.files {} [] "a.yaml" ∧
    Starts rawHost none [rawPath] [] false {} [rawPath] ∧ ¬ Passes rawHost.files {} [] rawPath ∧
    Command.run rawHost none (.validate [rawPath] [] false [] .json) =
      { failure := some (.renderFailed .pathNotText) } := by
  have hstarts : Starts rawHost none [rawPath] [] false {} [rawPath] :=
    ⟨⟨{}, none, by decide +kernel, by decide +kernel⟩, by decide +kernel, by decide +kernel⟩
  have hraw : rawPath.text? = none := by decide +kernel
  have hrun : Command.run rawHost none (.validate [rawPath] [] false [] .json) =
      { failure := some (.renderFailed .pathNotText) } := by
    rw [run_validate hstarts, reportIn, json_eq_error _ _ _ ⟨rawPath, by simp, hraw⟩]
  refine ⟨⟨⟨{}, none, ?_, ?_⟩, ?_, ?_⟩, ⟨⟨{}, none, ?_, ?_⟩, ?_, ?_⟩, ?_, ?_, ?_, hstarts, ?_, hrun⟩
  all_goals decide +kernel

end BundleCheck
