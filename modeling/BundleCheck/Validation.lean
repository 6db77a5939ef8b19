import BundleCheck.Check
import BundleCheck.Load
import BundleCheck.Text.Lines

/-! # Validating files

Bundle files are checked one by one. A file that cannot be loaded has not passed; the others are
still checked. -/

namespace BundleCheck

open Yaml (Value Mapping JsonError)

/-! ## Collecting files -/

namespace BundleFiles

/-- The directories with this name hold overlays, not bundles. -/
def overlayDirectory : String := "overlays"

/-- Hidden entries and directories of overlays are skipped. A name that is no text is neither. -/
def isSkipped (name : FilePath) (entry : FileEntry) : Bool :=
  match name.text? with
  | some text =>
      text.toList.head? == some '.' ||
        match entry with
        | .directory _ => text == overlayDirectory
        | .file _ => false
  | none => false

/-- A file name that ends in `.yaml` or `.yml`, in any case. Only the ending must be a text. -/
def isBundleName (name : FilePath) : Bool :=
  match name.extension?.bind FilePath.text? with
  | some extension =>
      let lower := extension.toList.map Char.toLower
      lower == ['y', 'a', 'm', 'l'] || lower == ['y', 'm', 'l']
  | none => false

/-- The order of paths: by the first names that differ, and a directory before what is in it. -/
def pathLe : List FilePath → List FilePath → Bool
  | [], _ => true
  | _ :: _, [] => false
  | a :: as, b :: bs => if a = b then pathLe as bs else a < b

/-- The bundle files below a directory, as names that lead to them, in order. -/
def below (entries : List (FilePath × FileEntry)) : List (List FilePath) :=
  ((FileEntry.filesOf isSkipped entries).filter fun path =>
    path.getLast?.any isBundleName).mergeSort pathLe

/-- The files that an argument stands for: the bundle files below a directory, of which there
must be one, or the argument itself. -/
def ofArgument (tree : FileTree) (path : FilePath) : Except Failure (List FilePath) :=
  if tree.isDirectory path then
    match below (tree.entriesOf path) with
    | [] => .error (.noBundles path.display)
    | files => .ok (files.map fun names => names.foldl FilePath.join path)
  else .ok [path]

def collect (tree : FileTree) (paths : List FilePath) : Except Failure (List FilePath) := do
  return (← paths.mapM (ofArgument tree)).flatten

end BundleFiles

/-! ## Outcomes -/

/-- What came of one file: its report, or why it could not be loaded. -/
structure Outcome where
  path : FilePath
  result : Except Failure Report

namespace Outcome

def ofFile (tree : FileTree) (config : Config) (overlays : List FilePath) (path : FilePath) :
    Outcome where
  path
  result := (loadFile tree path overlays).map config.check

/-- The file was loaded, and no finding is an error. -/
def passed (o : Outcome) : Bool :=
  match o.result with
  | .ok report => !report.hasErrors
  | .error _ => false

/-! ### As text -/

def findingLine (f : Finding) : String :=
  s!"  {f.render}"

def verdict (report : Report) : String :=
  let errors := report.errors.length
  let warnings := report.warnings.length
  if 0 < errors then s!"  ✗ {errors} error(s), {warnings} warning(s)"
  else if 0 < warnings then s!"  ! {warnings} warning(s)"
  else "  ✓ ok"

def lines (o : Outcome) : List String :=
  match o.result with
  | .ok report => o.path.display :: report.map findingLine ++ [verdict report]
  | .error failure => [o.path.display, s!"  error {failure.message}"]

/-! ### As data -/

def encodeFinding (f : Finding) : Value :=
  .mapping [(.string "rule", .string f.rule.code), (.string "severity", .string f.severity.name),
    (.string "subject", .string f.subject.render), (.string "message", .string f.issue.message)]

/-- An outcome as data, if its path is a text. -/
def encode (o : Outcome) : Except JsonError Value :=
  match o.path.text? with
  | some path =>
      let (failure, findings) : Mapping × Report :=
        match o.result with
        | .ok report => ([], report)
        | .error failure => ([(.string "load_error", .string failure.message)], [])
      .ok (.mapping ([(.string "path", .string path), (.string "passed", .bool o.passed)] ++
        failure ++ [(.string "findings", .sequence (findings.map encodeFinding))]))
  | none => .error .pathNotText

end Outcome

namespace Validation

def failed (outcomes : List Outcome) : Nat :=
  outcomes.countP fun o => !o.passed

/-- The report as text; several files get a summary. -/
def text (outcomes : List Outcome) : String :=
  let total := outcomes.length
  let summary :=
    if 1 < total then
      ["", s!"Checked {total} bundle(s): {total - failed outcomes} passed, " ++
        s!"{failed outcomes} failed"]
    else []
  Text.unlines (outcomes.flatMap Outcome.lines ++ summary)

def json (outcomes : List Outcome) : Except Failure String :=
  match outcomes.mapM Outcome.encode >>= fun items => (Value.sequence items).writeJson with
  | .ok text => .ok (text ++ "\n")
  | .error cause => .error (.renderFailed cause)

end Validation

end BundleCheck
