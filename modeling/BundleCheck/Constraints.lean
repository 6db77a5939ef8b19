import BundleCheck.Double.Numeral
import BundleCheck.SortedMap
import BundleCheck.Text.Blank

/-! # Constraints on machines

A constraint text is a list of pairs `key=value` between blanks, such as `mem=3072M cores=2`.
Sizes are counted in megabytes. -/

namespace BundleCheck

open Text

inductive ConstraintsError
  | malformed (pair : String)
  | invalidSize (key value : String)
  | invalidNumber (key value : String)
  | invalidBool (key value : String)
  | repeated (key : String)
  deriving DecidableEq

def ConstraintsError.message : ConstraintsError → String
  | .malformed pair => s!"constraint '{pair}' is not of the form key=value"
  | .invalidSize key value => s!"constraint '{key}' has invalid size '{value}'"
  | .invalidNumber key value => s!"constraint '{key}' has invalid number '{value}'"
  | .invalidBool key value => s!"constraint '{key}' has invalid boolean '{value}'"
  | .repeated key => s!"constraint '{key}' given more than once"

/-- The constraints of a machine or an application. Keys that are not known stay as written. -/
structure Constraints where
  mem : Option Nat := none
  rootDisk : Option Nat := none
  rootDiskSource : Option String := none
  cores : Option Nat := none
  cpuPower : Option Nat := none
  arch : Option String := none
  container : Option String := none
  virtType : Option String := none
  instanceType : Option String := none
  allocatePublicIp : Option Bool := none
  tags : List String := []
  spaces : List String := []
  zones : List String := []
  unknown : SortedMap String String := .empty
  deriving DecidableEq

namespace Constraints

/-! ## Values -/

/-- The power of two, in megabytes, of a unit letter. -/
def unitPower? (c : Char) : Option Nat :=
  if c == 'M' || c == 'm' then some 0
  else if c == 'G' || c == 'g' then some 10
  else if c == 'T' || c == 't' then some 20
  else if c == 'P' || c == 'p' then some 30
  else none

/-- The value without its unit letter, and the power of two of the unit. -/
def splitUnit (value : List Char) : List Char × Nat :=
  match value.getLast?.bind unitPower? with
  | some power => (value.dropLast, power)
  | none => (value, 0)

def maxSize : Nat := wordSize 64 - 1

/-- Reads a size: a decimal fraction that is not negative, rounded up to whole megabytes after
the unit is applied. Sizes beyond the greatest are cut down to it. -/
def size? (value : List Char) : Option Nat :=
  let (numeral, power) := splitUnit value
  match Double.ofNumeral? numeral with
  | some (.finite negative m e) =>
      if negative && m != 0 then none else some (min (Double.ceilScaled m (e + power)) maxSize)
  | _ => none

def bool? (value : List Char) : Option Bool :=
  if value = "true".toList then some true
  else if value = "false".toList then some false
  else none

/-- The items between commas, without the blanks around them, that are not empty. -/
def items (value : List Char) : List String :=
  (((pieces (· == ',') value).map trim).filter fun item => !item.isEmpty).map String.ofList

/-- A text, or nothing if it is empty. -/
def text? (value : List Char) : Option String :=
  if value.isEmpty then none else some (String.ofList value)

/-! ## Reading -/

/-- The size under `key`, or the error that names both. -/
def readSize (key : String) (value : List Char) : Except ConstraintsError Nat :=
  match size? value with
  | some n => .ok n
  | none => .error (.invalidSize key (String.ofList value))

def readNumber (key : String) (value : List Char) : Except ConstraintsError Nat :=
  match natural? 64 value with
  | some n => .ok n
  | none => .error (.invalidNumber key (String.ofList value))

def readBool (key : String) (value : List Char) : Except ConstraintsError Bool :=
  match bool? value with
  | some b => .ok b
  | none => .error (.invalidBool key (String.ofList value))

def set (c : Constraints) (key : String) (value : List Char) :
    Except ConstraintsError Constraints :=
  match key with
  | "mem" => do return { c with mem := some (← readSize key value) }
  | "root-disk" => do return { c with rootDisk := some (← readSize key value) }
  | "root-disk-source" => .ok { c with rootDiskSource := text? value }
  | "cores" => do return { c with cores := some (← readNumber key value) }
  | "cpu-cores" => do return { c with cores := some (← readNumber key value) }
  | "cpu-power" => do return { c with cpuPower := some (← readNumber key value) }
  | "arch" => .ok { c with arch := text? value }
  | "container" => .ok { c with container := text? value }
  | "virt-type" => .ok { c with virtType := text? value }
  | "instance-type" => .ok { c with instanceType := text? value }
  | "allocate-public-ip" => do return { c with allocatePublicIp := some (← readBool key value) }
  | "tags" => .ok { c with tags := items value }
  | "spaces" => .ok { c with spaces := items value }
  | "zones" => .ok { c with zones := items value }
  | _ => .ok { c with unknown := c.unknown.insert key (String.ofList value) }

/-- A pair's key, which is not empty, and its value. -/
def splitPair (pair : List Char) : Except ConstraintsError (String × List Char) :=
  match cutFirst '=' pair with
  | some (key, value) =>
      if key.isEmpty then .error (.malformed (String.ofList pair))
      else .ok (String.ofList key, value)
  | none => .error (.malformed (String.ofList pair))

/-- Reads pairs in order; `seen` holds the keys read before. -/
def parsePairs (seen : List String) (c : Constraints) :
    List (List Char) → Except ConstraintsError Constraints
  | [] => .ok c
  | pair :: pairs => do
      let (key, value) ← splitPair pair
      if seen.contains key then .error (.repeated key)
      else parsePairs (seen ++ [key]) (← c.set key value) pairs

def parse (input : String) : Except ConstraintsError Constraints :=
  parsePairs [] {} (words input.toList)

def isEmpty (c : Constraints) : Bool :=
  c == {}

/-! ## Writing -/

/-- A size in gigabytes where that is exact, else in megabytes. -/
def sizeChars (megabytes : Nat) : List Char :=
  if 1024 ≤ megabytes && megabytes % 1024 == 0 then decimal (megabytes / 1024) ++ ['G']
  else decimal megabytes ++ ['M']

def pairChars (key : String) (value : List Char) : List Char :=
  key.toList ++ '=' :: value

def optionPair (key : String) (value : Option (List Char)) : List (List Char) :=
  (value.map (pairChars key)).toList

def listPair (key : String) (list : List String) : List (List Char) :=
  if list.isEmpty then [] else [pairChars key (joinWith [','] (list.map String.toList))]

/-- The pairs in canonical order, unknown keys last. -/
def pairs (c : Constraints) : List (List Char) :=
  optionPair "arch" (c.arch.map String.toList) ++
    optionPair "cores" (c.cores.map decimal) ++
    optionPair "cpu-power" (c.cpuPower.map decimal) ++
    optionPair "mem" (c.mem.map sizeChars) ++
    optionPair "root-disk" (c.rootDisk.map sizeChars) ++
    optionPair "root-disk-source" (c.rootDiskSource.map String.toList) ++
    optionPair "container" (c.container.map String.toList) ++
    optionPair "virt-type" (c.virtType.map String.toList) ++
    optionPair "instance-type" (c.instanceType.map String.toList) ++
    optionPair "allocate-public-ip"
      (c.allocatePublicIp.map fun b => (if b then "true" else "false").toList) ++
    listPair "tags" c.tags ++ listPair "spaces" c.spaces ++ listPair "zones" c.zones ++
    c.unknown.entries.map fun e => pairChars e.1 e.2.toList

def render (c : Constraints) : String :=
  String.ofList (joinWith [' '] c.pairs)

end Constraints

end BundleCheck
