import BundleCheck.Command
import BundleCheck.CommandLine.Grammar

/-! # The command line

The options of the program, its commands and their arguments. A configuration file may also be
named by the environment. -/

namespace BundleCheck

namespace CommandLine

/-! ## Arguments -/

/-- Names of files are not empty. -/
def isFileName (value : String) : Bool :=
  !value.isEmpty

def configOption : Argument :=
  { name := "config", short := some 'c', kind := .single, accepts := isFileName }

/-- Options that may stand before or after the command. -/
def commonOptions : List Argument :=
  [configOption, { name := "verbose", short := some 'v', kind := .counter },
    { name := "help", short := some 'h', kind := .help }]

def overlayOption : Argument :=
  { name := "overlay", short := some 'o', kind := .many, accepts := isFileName }

def bundlePlace : Argument :=
  { name := "bundle", kind := .single, accepts := isFileName }

def reportFormat? : String → Option ReportFormat
  | "text" => some .text
  | "json" => some .json
  | _ => none

def renderFormat? : String → Option RenderFormat
  | "yaml" => some .yaml
  | "json" => some .json
  | _ => none

def partKind? : String → Option PartKind
  | "machines" => some .machines
  | "applications" => some .applications
  | "relations" => some .relations
  | _ => none

/-! ## Grammars -/

/-- What stands before the command. -/
def outerGrammar : Grammar where
  options := commonOptions ++ [{ name := "version", short := some 'V', kind := .version }]
  commands := Command.names

def validateGrammar : Grammar where
  options := commonOptions ++
    [overlayOption, { name := "strict", kind := .flag }, { name := "ignore", kind := .many },
      { name := "format", kind := .single, accepts := fun v => (reportFormat? v).isSome }]
  places := [{ name := "paths", kind := .many, accepts := isFileName }]
  required := ["paths"]

def listGrammar : Grammar where
  options := commonOptions ++
    [overlayOption, { name := "filter", kind := .single }, { name := "detailed", kind := .flag }]
  places :=
    [bundlePlace, { name := "kind", kind := .single, accepts := fun v => (partKind? v).isSome }]
  required := ["bundle"]

def detailsGrammar : Grammar where
  options := commonOptions ++ [overlayOption]
  places := [bundlePlace, { name := "name", kind := .single }]
  required := ["bundle"]

def renderGrammar : Grammar where
  options := commonOptions ++
    [overlayOption,
      { name := "format", kind := .single, accepts := fun v => (renderFormat? v).isSome }]
  places := [bundlePlace]
  required := ["bundle"]

def versionGrammar : Grammar where
  options := commonOptions

def completionsGrammar : Grammar where
  options := commonOptions ++ [{ name := "shell", short := some 's', kind := .single }]
  required := ["shell"]

/-! ## Commands -/

def value? (p : Progress) (name : String) : Option String :=
  (p.values? name).bind List.head?

def valuesOf (p : Progress) (name : String) : List String :=
  (p.values? name).getD []

def pathsOf (p : Progress) (name : String) : List FilePath :=
  (valuesOf p name).map .ofText

def isGiven (p : Progress) (name : String) : Bool :=
  (p.values? name).isSome

/-- The grammar of a command's arguments, and the command that they make. -/
def commandOf? : String → Option (Grammar × (Progress → Command))
  | "validate" =>
      some (validateGrammar, fun p =>
        .validate (pathsOf p "paths") (pathsOf p "overlay") (isGiven p "strict")
          (valuesOf p "ignore") (((value? p "format").bind reportFormat?).getD .text))
  | "list" =>
      some (listGrammar, fun p =>
        .list ((value? p "bundle").getD "") (pathsOf p "overlay")
          (((value? p "kind").bind partKind?).getD .applications) (value? p "filter")
          (isGiven p "detailed"))
  | "show" =>
      some (detailsGrammar, fun p =>
        .details ((value? p "bundle").getD "") (pathsOf p "overlay") (value? p "name"))
  | "render" =>
      some (renderGrammar, fun p =>
        .render ((value? p "bundle").getD "") (pathsOf p "overlay")
          (((value? p "format").bind renderFormat?).getD .yaml))
  | "version" => some (versionGrammar, fun _ => .version)
  | "completions" =>
      some (completionsGrammar, fun p => .completions ((value? p "shell").getD ""))
  | _ => none

/-! ## Reading -/

structure Request where
  config : Option FilePath
  verbosity : Nat
  command : Command

/-- The help command names at most one command. -/
def helpStop : List String → Stop
  | [] => .help
  | [name] => if Command.names.contains name then .help else .unknownCommand
  | _ => .unknownCommand

/-- How often an option was repeated is counted up to this number. -/
def maxCount : Nat := 255

def readCommand (environment : Option String) (g : Grammar) (words : List String) :
    Except Stop Progress := do
  let (p, _) ← readWords g { places := g.places } words
  let p ← p.settle
  let filled ← fallBack p configOption environment
  checkRequired g filled
  return p

/-- Reads a command line; `environment` names a configuration file. Options after the command
count before those in front of it, and both before the environment. -/
def read (environment : Option String) (words : List String) : Except Stop Request := do
  let (outer, rest?) ← readWords outerGrammar { places := [] } words
  match rest? with
  | none =>
      let outer ← outer.settle
      let filled ← fallBack outer configOption environment
      .error (if filled.accepted.isEmpty then .helpForNothing else .missingCommand)
  | some rest =>
      match commandOf? rest.command with
      | none => .error (helpStop rest.words)
      | some (g, command) =>
          let inner ← readCommand environment g rest.words
          let outer ← outer.settle
          let _ ← fallBack outer configOption environment
          let count := if isGiven inner "verbose" then inner.count "verbose"
            else outer.count "verbose"
          return {
            config := (value? inner "config" <|> value? outer "config" <|> environment).map .ofText
            verbosity := min count maxCount
            command := command inner }

/-! ## Help -/

def usage : String :=
  "Usage: charmbundle [--config FILE] [-v] <COMMAND>\n\n" ++
    "  validate <PATH>... [--overlay FILE] [--strict] [--ignore RULE] [--format text|json]\n" ++
    "  list <BUNDLE> [machines|applications|relations] [--filter GLOB] [--detailed] " ++
    "[--overlay FILE]\n" ++
    "  show <BUNDLE> [NAME] [--overlay FILE]\n" ++
    "  render <BUNDLE> [--overlay FILE] [--format yaml|json]\n" ++
    "  version\n" ++
    "  completions --shell SHELL\n"

def Stop.message : Stop → String
  | .missingArgument => "error: a required argument is missing"
  | .missingCommand => "error: a command is required"
  | .unknownArgument => "error: unexpected argument"
  | .unknownCommand => "error: unrecognized command"
  | .invalidValue => "error: invalid or missing value"
  | .surplusValue => "error: unexpected value for a flag"
  | .repeatedArgument => "error: an argument cannot be used multiple times"
  | .help => usage
  | .version => Command.versionLine
  | .helpForNothing => usage

/-! ## Logging -/

def logLevel : Nat → String
  | 0 => "warn"
  | 1 => "info"
  | _ => "debug"

end CommandLine

end BundleCheck
