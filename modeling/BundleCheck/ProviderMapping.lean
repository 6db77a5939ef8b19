import BundleCheck.SortedMap
import BundleCheck.Text.Blank
import BundleCheck.Text.Numeral

/-! # Provider mapping options

Networking charms take options such as `bridge-mappings`, `data-port` and `vlan-ranges`, whose
values list entries `left:right` between blanks. Only the first colon splits an entry, so that
hardware addresses survive on the right. -/

namespace BundleCheck

open Text

inductive MappingError
  | missingSeparator (entry : String)
  | emptySide (entry : String)
  | duplicatePort (port : String)
  | invalidRange (provider range : String)
  deriving DecidableEq

def MappingError.message : MappingError → String
  | .missingSeparator entry => s!"mapping '{entry}' must be of the form <left>:<right>"
  | .emptySide entry => s!"mapping '{entry}' has an empty side"
  | .duplicatePort port => s!"port '{port}' is configured on more than one bridge"
  | .invalidRange provider range => s!"invalid VLAN range '{range}' for provider '{provider}'"

namespace ProviderMapping

/-! ## Plain entries -/

def entries (value : String) : List (List Char) :=
  words value.toList

/-- An entry's text before and after its first colon; without a colon, nothing comes after. -/
def sides (entry : List Char) : List Char × List Char :=
  (cutFirst ':' entry).getD (entry, [])

/-- Entries by their left side. Of entries with the same side the last one counts. -/
def byLeft (value : String) : SortedMap String String :=
  .ofList ((entries value).map fun entry =>
    (String.ofList (sides entry).1, String.ofList (sides entry).2))

/-- Entries with a colon by their right side. Of entries with the same side the last one
counts. -/
def byRight (value : String) : SortedMap String String :=
  .ofList ((entries value).filterMap fun entry =>
    (cutFirst ':' entry).map fun parts => (String.ofList parts.2, String.ofList parts.1))

/-! ## Bridges -/

/-- An entry of two sides that are not empty. -/
def checkSides (entry : List Char) : Except MappingError Unit :=
  match cutFirst ':' entry with
  | none => .error (.missingSeparator (String.ofList entry))
  | some (left, right) =>
      if left.isEmpty || right.isEmpty then .error (.emptySide (String.ofList entry))
      else .ok ()

def bridges (value : String) : Except MappingError (SortedMap String String) := do
  (entries value).forM checkSides
  return byLeft value

/-! ## Data ports -/

/-- The bridge of a port given without one. -/
def defaultBridge : String := "br-data"

/-- Adds `bridge:port` entries in order. Entries without a colon do not count; a port stays on
one bridge. -/
def addPorts (ports : SortedMap String String) :
    List (List Char) → Except MappingError (SortedMap String String)
  | [] => .ok ports
  | entry :: rest =>
      match cutFirst ':' entry with
      | none => addPorts ports rest
      | some (bridge, port) =>
          let bridgeName := String.ofList bridge
          let portName := String.ofList port
          if bridge.isEmpty || port.isEmpty then .error (.emptySide (String.ofList entry))
          else if (ports.get? portName).any (· != bridgeName) then .error (.duplicatePort portName)
          else addPorts (ports.insert portName bridgeName) rest

/-- Bridges by port, which is an interface or a hardware address. Where no entry has a colon,
the first one is a port on `bridge`. -/
def dataPorts (value bridge : String) : Except MappingError (SortedMap String String) :=
  match entries value with
  | [] => .ok .empty
  | first :: rest =>
      if (first :: rest).all fun entry => !entry.contains ':' then
        .ok (SortedMap.empty.insert (String.ofList first) bridge)
      else addPorts .empty (first :: rest)

/-! ## VLAN ranges -/

/-- Reads `start:end`, two numbers of 16 bits with `1 ≤ start ≤ end ≤ 4094`. -/
def range? (range : List Char) : Option (Nat × Nat) := do
  let (start, stop) ← cutFirst ':' range
  let low ← natural? 16 start
  let high ← natural? 16 stop
  if low = 0 || high > 4094 || low > high then none else some (low, high)

/-- The range of one provider; none is given by an empty text. -/
def readRange (value : String) (provider range : String) :
    Except MappingError (String × Option (Nat × Nat)) :=
  if provider.isEmpty then .error (.emptySide (trimmed value))
  else if range.isEmpty then .ok (provider, none)
  else
    match range? range.toList with
    | some bounds => .ok (provider, some bounds)
    | none => .error (.invalidRange provider range)

/-- VLAN ranges by provider, read from `provider[:start:end]` entries. -/
def vlanRanges (value : String) : Except MappingError (SortedMap String (Option (Nat × Nat))) := do
  let ranges ← (byLeft value).entries.mapM fun e => readRange value e.1 e.2
  return .ofList ranges

/-! ## Options -/

inductive Kind
  | bridge
  | dataPort
  | vlanRange
  deriving DecidableEq

/-- The kind of an option, told by how its key ends. -/
def Kind.ofOption? (key : String) : Option Kind :=
  if "bridge-mappings".toList.isSuffixOf key.toList then some .bridge
  else if "interface-mappings".toList.isSuffixOf key.toList ||
      "data-port".toList.isSuffixOf key.toList then some .dataPort
  else if "vlan-ranges".toList.isSuffixOf key.toList then some .vlanRange
  else none

def Kind.check (kind : Kind) (value : String) : Except MappingError Unit :=
  match kind with
  | .bridge => (bridges value).map fun _ => ()
  | .dataPort => (dataPorts value defaultBridge).map fun _ => ()
  | .vlanRange => (vlanRanges value).map fun _ => ()

end ProviderMapping

end BundleCheck
