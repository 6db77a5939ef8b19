import BundleCheck.FileTree
import BundleCheck.Yaml.Json
import BundleCheck.Yaml.Problem

/-! # Failures

What can go wrong between the command line and the answer, with the texts shown for it. -/

namespace BundleCheck

open Yaml

inductive OverlayFault
  | overlayNotMapping
  | baseNotMapping
  | keyNotText
  | applicationsNotMapping
  | baseApplicationsNotMapping
  | applicationNameNotText
  | applicationNotMapping (name : String)
  | machinesNotMapping
  | baseMachinesNotMapping
  | relations (cause : Mismatch)
  | baseRelations (cause : Mismatch)

def OverlayFault.message : OverlayFault → String
  | .overlayNotMapping => "overlay is not a mapping"
  | .baseNotMapping => "base bundle is not a mapping"
  | .keyNotText => "top-level keys must be strings"
  | .applicationsNotMapping => "applications must be a mapping"
  | .baseApplicationsNotMapping => "base applications must be a mapping"
  | .applicationNameNotText => "application names must be strings"
  | .applicationNotMapping name => s!"application '{name}' must be a mapping or null"
  | .machinesNotMapping => "machines must be a mapping"
  | .baseMachinesNotMapping => "base machines must be a mapping"
  | .relations cause => s!"relations: {cause.message}"
  | .baseRelations cause => s!"base relations: {cause.message}"

inductive ConfigFault
  | emptyPattern
  | badPattern (pattern : String)
  deriving DecidableEq

def ConfigFault.message : ConfigFault → String
  | .emptyPattern => "ignore patterns cannot be empty"
  | .badPattern pattern => s!"ignore pattern '{pattern}' is not a valid glob: <glob error>"

inductive Failure
  | bundleUnreadable (origin : String) (problem : Problem)
  | bundleEmpty (origin : String)
  | bundleNotMapping (origin : String)
  | applicationNotFound (name : String)
  | applicationRequired
  | noBundles (directory : String)
  | validationFailed (failed : Nat)
  | renderFailed (cause : JsonError)
  | overlayMissingCharm (application : String)
  | overlayInvalid (origin : String) (fault : OverlayFault)
  | configNotFound (path : String)
  | configUnreadable (origin : String) (problem : Problem)
  | configReadFailed (path : String)
  | configInvalid (fault : ConfigFault)
  | unknownShell (shell : String)
  | invalidFilter (pattern : String)
  | fileNotFound (path : String)
  | fileReadFailed (path : String) (cause : FileError)

namespace Failure

def message : Failure → String
  | .bundleUnreadable origin problem => s!"Failed to parse bundle '{origin}': {problem.message}"
  | .bundleEmpty origin => s!"Bundle '{origin}' is empty"
  | .bundleNotMapping origin => s!"Bundle '{origin}' is not a mapping"
  | .applicationNotFound name => s!"Application '{name}' not found in bundle"
  | .applicationRequired => "No application name given"
  | .noBundles directory => s!"No bundle files found under '{directory}'"
  | .validationFailed failed => s!"Validation failed for {failed} bundle(s)"
  | .renderFailed cause => s!"Failed to render bundle: {cause.message}"
  | .overlayMissingCharm application =>
      s!"Overlay adds application '{application}' without a charm"
  | .overlayInvalid origin fault => s!"Invalid overlay '{origin}': {fault.message}"
  | .configNotFound path => s!"Configuration file not found: {path}"
  | .configUnreadable origin problem =>
      s!"Failed to parse configuration file: {origin}: {problem.message}"
  | .configReadFailed path => s!"Failed to read configuration file: {path}"
  | .configInvalid fault => s!"Invalid configuration: {fault.message}"
  | .unknownShell shell => s!"Unknown shell: {shell}"
  | .invalidFilter pattern => s!"Invalid filter pattern '{pattern}': <glob error>"
  | .fileNotFound path => s!"File not found: {path}"
  | .fileReadFailed path cause => s!"Failed to read file: {path}: {cause.message}"

def code : Failure → String
  | .bundleUnreadable .. => "charmbundle::bundle::parse_failed"
  | .bundleEmpty _ => "charmbundle::bundle::empty"
  | .bundleNotMapping _ => "charmbundle::bundle::not_mapping"
  | .applicationNotFound _ => "charmbundle::bundle::application_not_found"
  | .applicationRequired => "charmbundle::bundle::application_required"
  | .noBundles _ => "charmbundle::bundle::none_found"
  | .validationFailed _ => "charmbundle::bundle::validation_failed"
  | .renderFailed _ => "charmbundle::bundle::render_failed"
  | .overlayMissingCharm _ => "charmbundle::overlay::missing_charm"
  | .overlayInvalid .. => "charmbundle::overlay::invalid"
  | .configNotFound _ => "charmbundle::config::not_found"
  | .configUnreadable .. => "charmbundle::config::parse_failed"
  | .configReadFailed _ => "charmbundle::config::read_failed"
  | .configInvalid _ => "charmbundle::config::invalid"
  | .unknownShell _ => "charmbundle::cli::unknown_shell"
  | .invalidFilter _ => "charmbundle::cli::invalid_filter"
  | .fileNotFound _ => "charmbundle::fs::not_found"
  | .fileReadFailed .. => "charmbundle::fs::read_failed"

def help? : Failure → Option String
  | .bundleUnreadable .. =>
      some "Bundles are YAML mappings with 'machines', 'applications' and 'relations' keys"
  | .bundleNotMapping _ => some "The top level of a bundle document must be a YAML mapping"
  | .applicationNotFound _ =>
      some "Run 'charmbundle list <BUNDLE> applications' to see the declared applications"
  | .applicationRequired =>
      some "Pass an application name, or run from an interactive terminal to pick one"
  | .noBundles _ => some "Bundle files must end in .yaml or .yml"
  | .overlayMissingCharm _ => some "Applications introduced by an overlay must name their charm"
  | .unknownShell _ => some "Supported shells: bash, elvish, fish, powershell, zsh"
  | .invalidFilter _ => some "Filters are glob patterns such as 'ovn-*'"
  | _ => none

end Failure

end BundleCheck
