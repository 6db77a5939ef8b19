import BundleCheck.MachineId
import BundleCheck.Text.Split

/-! # Placement directives

A directive says where one unit of an application goes: on a declared machine, in a container,
next to a unit of another application, or on a new machine. -/

namespace BundleCheck

open Text

inductive PlacementError
  | empty
  | unknownContainer (kind : String)
  | invalidUnit (directive : String)
  | missingTarget (directive : String)
  deriving DecidableEq

def PlacementError.message : PlacementError → String
  | .empty => "placement directive is empty"
  | .unknownContainer kind => s!"unknown container type '{kind}'"
  | .invalidUnit directive =>
      s!"invalid unit placement '{directive}', expected <application>/<index>"
  | .missingTarget directive => s!"placement '{directive}' has no target after ':'"

inductive Container
  | lxd
  | kvm
  deriving DecidableEq

namespace Container

def chars : Container → List Char
  | .lxd => ['l', 'x', 'd']
  | .kvm => ['k', 'v', 'm']

/-- The kind of a name; `lxc` is an older name of `lxd`. -/
def ofName? (name : List Char) : Option Container :=
  if name = Container.lxd.chars || name = ['l', 'x', 'c'] then some .lxd
  else if name = Container.kvm.chars then some .kvm
  else none

end Container

/-- Where one unit goes. A container without a machine stands on a new one. -/
inductive Placement
  | machine (id : MachineId)
  | container (kind : Container) (machine : Option MachineId)
  | unit (application : String) (index : Nat)
  | new
  deriving DecidableEq

namespace Placement

/-- The word for a machine of the unit's own. -/
def newWord : List Char := ['n', 'e', 'w']

/-! ## Reading -/

/-- Reads `<application>/<index>`; the index has 32 bits. -/
def parseUnit (directive target : List Char) : Except PlacementError Placement :=
  match cutFirst '/' target with
  | none => .error (.invalidUnit (String.ofList directive))
  | some (application, index) =>
      match natural? 32 index with
      | some n =>
          if application.isEmpty then .error (.invalidUnit (String.ofList directive))
          else .ok (.unit (String.ofList application) n)
      | none => .error (.invalidUnit (String.ofList directive))

/-- Reads what follows `<kind>:`. A container next to a unit counts as the unit's place. -/
def parseContainer (directive : List Char) (kind : Container) (target : List Char) :
    Except PlacementError Placement :=
  if target.isEmpty then .error (.missingTarget (String.ofList directive))
  else if target = newWord then .ok (.container kind none)
  else if target.contains '/' then parseUnit directive target
  else .ok (.container kind (some (.ofText (String.ofList target))))

def parseTrimmed (directive : List Char) : Except PlacementError Placement :=
  if directive.isEmpty then .error .empty
  else if directive = newWord then .ok .new
  else
    match cutFirst ':' directive with
    | some (name, target) =>
        match Container.ofName? name with
        | some kind => parseContainer directive kind target
        | none => .error (.unknownContainer (String.ofList name))
    | none =>
        match Container.ofName? directive with
        | some kind => .ok (.container kind none)
        | none =>
            if directive.contains '/' then parseUnit directive directive
            else .ok (.machine (.ofText (String.ofList directive)))

/-- Reads a placement directive; blanks around it do not count. -/
def parse (input : String) : Except PlacementError Placement :=
  parseTrimmed (trim input.toList)

/-! ## Parts and writing -/

def machineId? : Placement → Option MachineId
  | .machine id => some id
  | .container _ id? => id?
  | .unit .. => none
  | .new => none

def chars : Placement → List Char
  | .machine id => id.text.toList
  | .container kind (some id) => kind.chars ++ ':' :: id.text.toList
  | .container kind none => kind.chars ++ ':' :: newWord
  | .unit application index => application.toList ++ '/' :: decimal index
  | .new => newWord

def render (placement : Placement) : String :=
  String.ofList placement.chars

end Placement

end BundleCheck
