import BundleCheck.Failure
import BundleCheck.Glob
import BundleCheck.Rule
import BundleCheck.Text.Blank
import BundleCheck.Yaml.Reader

/-! # Configuration of the checks

A configuration says whether warnings count as errors, and which rules are ignored. It is
written in a file of its own. -/

namespace BundleCheck

open Text Yaml Yaml.Source

/-- Settings for the checks. Rules are ignored by code or by a glob pattern for codes. -/
structure Config where
  strict : Bool := false
  ignored : List String := []
  deriving DecidableEq

namespace Config

/-! ## Ignored rules -/

/-- A pattern selects a rule. A text that is no glob pattern selects only its own code. -/
def selects (pattern : String) (rule : Rule) : Bool :=
  pattern == rule.code || (Glob.parse? pattern).any fun glob => glob.isMatch rule.code

def ignores (config : Config) (rule : Rule) : Bool :=
  config.ignored.any fun pattern => selects pattern rule

/-! ## Reading -/

inductive Field
  | strict
  | ignored
  deriving DecidableEq

def Field.name : Field → String
  | .strict => "strict"
  | .ignored => "ignore"

def Field.ofName? : String → Option Field
  | "strict" => some .strict
  | "ignore" => some .ignored
  | _ => none

section

variable {σ : Type} {m : Type → Type} [Monad m] [Source σ m]

def readField (config : Config) (field : Field) (part : σ) : m Config := do
  match field with
  | .strict => return { config with strict := ← bool "a boolean" part }
  | .ignored =>
      return { config with ignored := ← (← items "a sequence" part).mapM (text "a string") }

def read (part : σ) : m Config := do
  readEntries Field.ofName? Field.name readField part [] {} (← entries "struct CheckConfig" part)

end

/-! ## Validity -/

/-- Patterns are glob patterns, and not blank. -/
def checkPattern (pattern : String) : Except ConfigFault Unit :=
  if (trim pattern.toList).isEmpty then .error .emptyPattern
  else if (Glob.parse? pattern).isNone then .error (.badPattern pattern)
  else .ok ()

/-- Refuses a configuration for its first bad pattern. -/
def validate (config : Config) : Except Failure Unit :=
  (config.ignored.forM checkPattern).mapError .configInvalid

/-- The configuration that a text describes; a blank text leaves everything at its default. -/
def parse (origin text : String) : Except Failure Config :=
  if (trim text.toList).isEmpty then .ok {}
  else do
    let config ← (readText read text).mapError fun problem => .configUnreadable origin problem
    config.validate
    return config

/-! ## Overrides -/

/-- Adds a pattern, unless it is there. -/
def ignore (patterns : List String) (pattern : String) : List String :=
  if patterns.contains pattern then patterns else patterns ++ [pattern]

def withOverrides (config : Config) (strict : Bool) (patterns : List String) : Config where
  strict := config.strict || strict
  ignored := patterns.foldl ignore config.ignored

/-! ## Files -/

def fileName : String := ".charmbundle.yaml"

/-- Where configurations are looked for, in order. -/
def candidates (directory userDirectory : FilePath) : List FilePath :=
  [directory.join fileName, (userDirectory.join "charmbundle").join "config.yaml"]

def load (tree : FileTree) (path : FilePath) : Except Failure Config :=
  if !tree.contains path then .error (.configNotFound path.display)
  else
    match tree.readText path with
    | .ok text => parse path.display text
    | .error _ => .error (.configReadFailed path.display)

/-- The configuration that applies, and what is shown for its file: the explicit one, else the
first of those that are looked for, else the default without a file. -/
def discover (tree : FileTree) (explicit : Option FilePath) (directory userDirectory : FilePath) :
    Except Failure (Config × Option String) :=
  match explicit <|> (candidates directory userDirectory).find? tree.isFile with
  | some path => (load tree path).map fun config => (config, some path.display)
  | none => .ok ({}, none)

end Config

end BundleCheck
