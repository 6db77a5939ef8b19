import BundleCheck.Text.Blank
import BundleCheck.Text.Numeral

/-! # Charm references

A reference names a charm in a store (`ch:name`, `cs:~owner/series/name-7`, `local:series/name`,
or just `name`) or a charm directory (`./path`, `../path`, `/path`). References are checked for
shape only. -/

namespace BundleCheck

open Text

inductive CharmError
  | empty
  | unknownSchema (schema : String)
  | missingOwnerSeparator (reference : String)
  | tooManySegments (reference : String)
  | invalidName (name : String)
  deriving DecidableEq

def CharmError.message : CharmError → String
  | .empty => "charm reference is empty"
  | .unknownSchema schema => s!"unknown charm schema '{schema}'"
  | .missingOwnerSeparator reference =>
      s!"charm owner in '{reference}' must be followed by '/'"
  | .tooManySegments reference => s!"charm reference '{reference}' has too many path segments"
  | .invalidName name => s!"invalid charm name '{name}'"

/-- A place that holds charms by name. -/
inductive Store
  | charmhub
  | charmStore
  | localRepository
  deriving DecidableEq

def Store.schema : Store → List Char
  | .charmhub => ['c', 'h']
  | .charmStore => ['c', 's']
  | .localRepository => ['l', 'o', 'c', 'a', 'l']

def Store.ofSchema? (schema : List Char) : Option Store :=
  if schema = Store.charmhub.schema then some .charmhub
  else if schema = Store.charmStore.schema then some .charmStore
  else if schema = Store.localRepository.schema then some .localRepository
  else none

inductive CharmRef
  | stored (store : Store) (owner series : Option String) (name : String) (revision : Option Nat)
  | directory (path : String)
  deriving DecidableEq

namespace CharmRef

/-! ## Names -/

/-- The last segment of a path, ending slashes aside. -/
def lastSegment (path : List Char) : List Char :=
  ((path.reverse.dropWhile (· == '/')).takeWhile (· != '/')).reverse

def isNameChar (c : Char) : Bool :=
  ('a' ≤ c && c ≤ 'z') || ('0' ≤ c && c ≤ '9') || c == '-'

/-- No hyphen follows another, and none ends the text. -/
def hyphensSeparate : List Char → Bool
  | [] => true
  | '-' :: cs => cs.head?.any (· != '-') && hyphensSeparate cs
  | _ :: cs => hyphensSeparate cs

/-- Groups of lowercase letters and digits joined by single hyphens; a letter begins. -/
def isValidName (name : List Char) : Bool :=
  name.head?.any (fun c => 'a' ≤ c && c ≤ 'z') && name.all isNameChar && hyphensSeparate name

/-- A name without its trailing `-<digits>`, and the revision written there. Digits that give
no number of 32 bits belong to the name. -/
def splitRevision (name : List Char) : List Char × Option Nat :=
  match cutLast '-' name with
  | some (base, digits) =>
      match (digits? 10 digits).filter (· < wordSize 32) with
      | some revision => if base.isEmpty then (name, none) else (base, some revision)
      | none => (name, none)
  | none => (name, none)

/-! ## Reading -/

def isPathLike (cs : List Char) : Bool :=
  ['.', '/'].isPrefixOf cs || ['.', '.', '/'].isPrefixOf cs || ['/'].isPrefixOf cs

/-- A directory must have a name of its own. -/
def parseDirectory (path : List Char) : Except CharmError CharmRef :=
  let name := lastSegment path
  if name.isEmpty || name == ['.'] || name == ['.', '.'] then
    .error (.invalidName (String.ofList path))
  else .ok (.directory (String.ofList path))

def parseStore (cs : List Char) : Except CharmError (Store × List Char) :=
  match cutFirst ':' cs with
  | none => .ok (.charmhub, cs)
  | some (schema, rest) =>
      match Store.ofSchema? schema with
      | some store => .ok (store, rest)
      | none => .error (.unknownSchema (String.ofList schema))

/-- The owner after a tilde, if there is one, and what follows its slash. -/
def parseOwner (reference rest : List Char) : Except CharmError (Option String × List Char) :=
  match rest with
  | '~' :: owned =>
      match cutFirst '/' owned with
      | none => .error (.missingOwnerSeparator (String.ofList reference))
      | some (owner, rest) =>
          if owner.isEmpty then .error (.invalidName (String.ofList reference))
          else .ok (some (String.ofList owner), rest)
  | _ => .ok (none, rest)

/-- The series before a slash, if there is one, and the name with its revision. -/
def parseSeries (reference rest : List Char) : Except CharmError (Option String × List Char) :=
  match pieces (· == '/') rest with
  | [name] => .ok (none, name)
  | [series, name] =>
      if series.isEmpty then .error (.invalidName (String.ofList reference))
      else .ok (some (String.ofList series), name)
  | _ => .error (.tooManySegments (String.ofList reference))

def parseStored (reference : List Char) : Except CharmError CharmRef := do
  let (store, rest) ← parseStore reference
  let (owner, rest) ← parseOwner reference rest
  let (series, rest) ← parseSeries reference rest
  let (name, revision) := splitRevision rest
  if isValidName name then
    .ok (.stored store owner series (String.ofList name) revision)
  else .error (.invalidName (String.ofList name))

/-- Reads a charm reference; blanks around it do not count. -/
def parse (input : String) : Except CharmError CharmRef :=
  let reference := trim input.toList
  if reference.isEmpty then .error .empty
  else if isPathLike reference then parseDirectory reference
  else parseStored reference

/-! ## Parts -/

def name : CharmRef → String
  | .stored _ _ _ name _ => name
  | .directory path => String.ofList (lastSegment path.toList)

def owner : CharmRef → Option String
  | .stored _ owner _ _ _ => owner
  | .directory _ => none

def series : CharmRef → Option String
  | .stored _ _ series _ _ => series
  | .directory _ => none

def revision : CharmRef → Option Nat
  | .stored _ _ _ _ revision => revision
  | .directory _ => none

def path : CharmRef → Option String
  | .stored .. => none
  | .directory path => some path

def isLocal : CharmRef → Bool
  | .stored store .. => store == .localRepository
  | .directory _ => true

/-- The schema, which a directory lacks. -/
def schema : CharmRef → String
  | .stored store .. => String.ofList store.schema
  | .directory _ => ""

def sourceName : CharmRef → String
  | .stored .charmhub .. => "charmhub"
  | .stored .charmStore .. => "charm store"
  | .stored .localRepository .. => "local"
  | .directory _ => "path"

/-! ## Writing -/

/-- The canonical text, always with its schema. -/
def chars : CharmRef → List Char
  | .stored store owner series name revision =>
      store.schema ++ ':' ::
        (owner.elim [] fun owner => '~' :: owner.toList ++ ['/']) ++
        (series.elim [] fun series => series.toList ++ ['/']) ++ name.toList ++
        (revision.elim [] fun n => '-' :: decimal n)
  | .directory path => path.toList

def render (charm : CharmRef) : String :=
  String.ofList charm.chars

end CharmRef

end BundleCheck
