import BundleCheck.Bundle.Encode
import BundleCheck.Completion
import BundleCheck.Details
import BundleCheck.Validation
import BundleCheck.Yaml.Writer

/-! # Commands

A command reads bundle files and prints a text; it may fail after printing. -/

namespace BundleCheck

open Yaml (Value)

/-! ## Commands -/

inductive ReportFormat
  | text
  | json
  deriving DecidableEq

inductive RenderFormat
  | yaml
  | json
  deriving DecidableEq

inductive Command
  | validate (paths overlays : List FilePath) (strict : Bool) (ignored : List String)
      (format : ReportFormat)
  | list (bundle : FilePath) (overlays : List FilePath) (kind : PartKind) (filter : Option String)
      (detailed : Bool)
  | details (bundle : FilePath) (overlays : List FilePath) (application : Option String)
  | render (bundle : FilePath) (overlays : List FilePath) (format : RenderFormat)
  | version
  | completions (shell : String)
  deriving DecidableEq

/-- What a command knows of the machine that it runs on. -/
structure Host where
  files : FileTree
  directory : FilePath
  userDirectory : FilePath

structure Answer where
  output : String := ""
  failure : Option Failure := none

namespace Answer

def ofExcept : Except Failure String → Answer
  | .ok output => { output }
  | .error failure => { failure := some failure }

end Answer

namespace Command

/-! ## Names -/

def program : String := "charmbundle"

def versionNumber : String := "0.1.0"

def names : List String :=
  ["validate", "list", "show", "render", "version", "completions", "help"]

/-! ## Texts -/

def renderBundle (format : RenderFormat) (b : Bundle) : Except Failure String :=
  match format with
  | .yaml => .ok b.encode.write
  | .json =>
      match b.encode.writeJson with
      | .ok text => .ok (text ++ "\n")
      | .error cause => .error (.renderFailed cause)

def ruleLines : List String :=
  let width := (Rule.all.map fun r => r.code.length).foldl max 0
  s!"Rules ({Rule.all.length}):" ::
    Rule.all.map fun r => s!"  {Text.padded width r.code}  {r.severity.name}"

def versionLine : String :=
  s!"{program} {versionNumber}"

def versionText : String :=
  Text.unlines ([versionLine, ""] ++ ruleLines)

/-! ## Files -/

/-- The paths that a command reads: bundles or their directories, and overlays. -/
def paths : Command → List FilePath
  | .validate paths overlays _ _ _ => paths ++ overlays
  | .list bundle overlays _ _ _ => bundle :: overlays
  | .details bundle overlays _ => bundle :: overlays
  | .render bundle overlays _ => bundle :: overlays
  | .version => []
  | .completions _ => []

/-! ## Running -/

def runValidate (around : Host) (config : Option FilePath) (paths overlays : List FilePath)
    (strict : Bool) (ignored : List String) (format : ReportFormat) : Except Failure Answer := do
  let (config, _) ← Config.discover around.files config around.directory around.userDirectory
  let config := config.withOverrides strict ignored
  config.validate
  let files ← BundleFiles.collect around.files paths
  let outcomes := files.map (Outcome.ofFile around.files config overlays)
  let output ←
    match format with
    | .text => .ok (Validation.text outcomes)
    | .json => Validation.json outcomes
  let failed := Validation.failed outcomes
  return { output, failure := if 0 < failed then some (.validationFailed failed) else none }

def runList (files : FileTree) (bundle : FilePath) (overlays : List FilePath) (kind : PartKind)
    (filter : Option String) (detailed : Bool) : Except Failure String := do
  match nameTest filter with
  | none => .error (.invalidFilter (filter.getD ""))
  | some selects =>
      let b ← loadFile files bundle overlays
      return Listing.ofKind kind b selects detailed

/-- Shows an application of a bundle, which must be named. -/
def runDetails (files : FileTree) (bundle : FilePath) (overlays : List FilePath)
    (application : Option String) : Except Failure String := do
  let b ← loadFile files bundle overlays
  match application with
  | none => .error .applicationRequired
  | some name =>
      match b.applications.get? name with
      | some a => return Details.text b name a
      | none => .error (.applicationNotFound name)

def runCompletions (shell : String) : Except Failure String :=
  match Shell.ofName? shell with
  | some s => .ok (s.script program names)
  | none => .error (.unknownShell shell)

/-- Runs a command; `config` is the explicit configuration file. -/
def run (around : Host) (config : Option FilePath) : Command → Answer
  | .validate paths overlays strict ignored format =>
      match runValidate around config paths overlays strict ignored format with
      | .ok answer => answer
      | .error failure => { failure := some failure }
  | .list bundle overlays kind filter detailed =>
      .ofExcept (runList around.files bundle overlays kind filter detailed)
  | .details bundle overlays application =>
      .ofExcept (runDetails around.files bundle overlays application)
  | .render bundle overlays format =>
      .ofExcept ((loadFile around.files bundle overlays).bind (renderBundle format))
  | .version => { output := versionText }
  | .completions shell => .ofExcept (runCompletions shell)

end Command

end BundleCheck
