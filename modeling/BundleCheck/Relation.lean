import BundleCheck.Text.Blank

/-! # Relations between application endpoints -/

namespace BundleCheck

open Text

/-! ## Endpoints -/

inductive EndpointError
  | empty
  | missingApplication (endpoint : String)
  | missingName (endpoint : String)
  | whitespace (endpoint : String)
  deriving DecidableEq

def EndpointError.message : EndpointError → String
  | .empty => "endpoint is empty"
  | .missingApplication endpoint => s!"endpoint '{endpoint}' has no application name"
  | .missingName endpoint => s!"endpoint '{endpoint}' has an empty relation name after ':'"
  | .whitespace endpoint => s!"endpoint '{endpoint}' contains whitespace"

/-- One side of a relation. Without a name, the orchestrator chooses the relation. -/
structure Endpoint where
  application : String
  name : Option String
  deriving DecidableEq

namespace Endpoint

def parseTrimmed (cs : List Char) : Except EndpointError Endpoint :=
  if cs.isEmpty then .error .empty
  else if cs.any isBlank then .error (.whitespace (String.ofList cs))
  else
    match cutFirst ':' cs with
    | none => .ok ⟨String.ofList cs, none⟩
    | some (application, name) =>
        if application.isEmpty then .error (.missingApplication (String.ofList cs))
        else if name.isEmpty then .error (.missingName (String.ofList cs))
        else .ok ⟨String.ofList application, some (String.ofList name)⟩

/-- Reads an endpoint; blanks around it do not count. -/
def parse (input : String) : Except EndpointError Endpoint :=
  parseTrimmed (trim input.toList)

def render (endpoint : Endpoint) : String :=
  match endpoint.name with
  | some name => s!"{endpoint.application}:{name}"
  | none => endpoint.application

end Endpoint

/-! ## Relations -/

/-- A binding between two endpoints, kept as written. -/
structure Relation where
  left : String
  right : String
  deriving DecidableEq

/-- The application of an endpoint, whether or not the endpoint is well formed. -/
def applicationOf (endpoint : String) : String :=
  let cs := trim endpoint.toList
  String.ofList ((cutFirst ':' cs).elim cs (·.1))

namespace Relation

/-- Both endpoints; the left one is read first. -/
def endpoints (r : Relation) : Except EndpointError (Endpoint × Endpoint) := do
  let left ← Endpoint.parse r.left
  let right ← Endpoint.parse r.right
  return (left, right)

def applications (r : Relation) : String × String :=
  (applicationOf r.left, applicationOf r.right)

def involves (r : Relation) (application : String) : Bool :=
  r.applications.1 == application || r.applications.2 == application

def peerOf? (r : Relation) (application : String) : Option String :=
  if r.applications.1 = application then some (trimmed r.right)
  else if r.applications.2 = application then some (trimmed r.left)
  else none

/-- The same two endpoints in either orientation. -/
def sameAs (r s : Relation) : Bool :=
  let (a, b) := (trimmed r.left, trimmed r.right)
  let (c, d) := (trimmed s.left, trimmed s.right)
  (a == c && b == d) || (a == d && b == c)

def render (r : Relation) : String :=
  s!"{trimmed r.left} <-> {trimmed r.right}"

end Relation

end BundleCheck
