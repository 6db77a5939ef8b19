import BundleCheck.Text.Quoted
import BundleCheck.Yaml.Scalar

/-! # What can be wrong with a document -/

namespace BundleCheck.Yaml

/-! ## Places -/

inductive Path
  | root
  | item (parent : Path) (index : Nat)
  | entry (parent : Path) (key : String)
  | unnamed (parent : Path)
  deriving DecidableEq, Inhabited

/-- The text of a place; the root is a point. -/
def Path.text : Path → String
  | .root => "."
  | .item parent index => s!"{parent.text}[{index}]"
  | .entry .root key => key
  | .entry parent key => s!"{parent.text}.{key}"
  | .unnamed .root => "?"
  | .unnamed parent => s!"{parent.text}.?"

/-! ## Mismatches -/

/-- What stands where something else is expected. -/
inductive Found
  | bool (b : Bool)
  | int (n : Int)
  | wide (n : Int)
  | float (x : Double)
  | text (s : String)
  | unit
  | option
  | sequence
  | mapping
  | enumeration
  deriving DecidableEq, Inhabited

/-- The number's plain text, a whole one with a point. -/
def floatText (x : Double) : String :=
  let cs := Double.plain.text x
  String.ofList (if x.isFinite && !cs.contains '.' then cs ++ ".0".toList else cs)

def Found.describe : Found → String
  | .bool b => s!"boolean \x60{b}\x60"
  | .int n => s!"integer \x60{n}\x60"
  | .wide n => if n < 0 then s!"integer \x60{n}\x60 as i128" else s!"integer \x60{n}\x60 as u128"
  | .float x => s!"floating point \x60{floatText x}\x60"
  | .text s => s!"string {Text.quoted s}"
  | .unit => "unit value"
  | .option => "Option value"
  | .sequence => "sequence"
  | .mapping => "map"
  | .enumeration => "enum"

def Meaning.found : Meaning → Found
  | .null => .unit
  | .bool b => .bool b
  | .int n => .int n
  | .wide n => .wide n
  | .float x => .float x
  | .text s => .text s

inductive Mismatch
  | invalidType (found : Found) (expected : String)
  | invalidValue (found : Found) (expected : String)
  | invalidLength (length : Nat) (expected : String)
  | missingField (name : String)
  | duplicateField (name : String)
  | duplicateEntry (key : Value)
  | duplicateKey (what key : String)
  | emptyMachineId
  | optionOutOfRange (n : Int)
  | taggedContent
  deriving Inhabited

/-- How a message names the key of an entry. -/
def describeKey : Value → String
  | .null => "with null key"
  | .bool b => s!"with key \x60{b}\x60"
  | .number n => s!"with key {String.ofList n.chars}"
  | .string s => s!"with key {Text.quoted s}"
  | .sequence _ | .mapping _ | .tagged .. => "in YAML map"

def Mismatch.message : Mismatch → String
  | .invalidType found expected => s!"invalid type: {found.describe}, expected {expected}"
  | .invalidValue found expected => s!"invalid value: {found.describe}, expected {expected}"
  | .invalidLength length expected => s!"invalid length {length}, expected {expected}"
  | .missingField name => s!"missing field \x60{name}\x60"
  | .duplicateField name => s!"duplicate field \x60{name}\x60"
  | .duplicateEntry key => s!"duplicate entry {describeKey key}"
  | .duplicateKey what key => s!"duplicate {what} '{key}'"
  | .emptyMachineId => "machine id cannot be empty"
  | .optionOutOfRange n => s!"option value {n} is out of range"
  | .taggedContent => "untagged and internally tagged enums do not support enum input"

/-! ## Problems -/

inductive Problem
  | brokenSyntax
  | unknownAnchor
  | repetitionLimit
  | recursionLimit
  | endOfText
  | severalDocuments
  | mismatch (place : Path) (cause : Mismatch)
  deriving Inhabited

def Problem.message : Problem → String
  | .brokenSyntax => "<yaml syntax error>"
  | .unknownAnchor => "unknown anchor"
  | .repetitionLimit => "repetition limit exceeded"
  | .recursionLimit => "recursion limit exceeded"
  | .endOfText => "EOF while parsing a value"
  | .severalDocuments =>
      "deserializing from YAML containing more than one document is not supported"
  | .mismatch .root cause => cause.message
  | .mismatch place cause => s!"{place.text}: {cause.message}"

end BundleCheck.Yaml
