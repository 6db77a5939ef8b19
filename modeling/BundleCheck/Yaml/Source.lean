import BundleCheck.SortedMap
import BundleCheck.Yaml.Problem

/-! # Reading typed data

Typed data can be read from the nodes of a text and from values. The two differ in what they
accept as a text, a number or an empty collection, and in how they report problems. What they
have in common is a `Source`, over which typed readers are written once. -/

namespace BundleCheck.Yaml

inductive Content (σ : Type)
  | scalar (meaning : Meaning)
  | items (parts : List σ)
  | entries (parts : List (σ × σ))
  | tagged (tag : String) (inside : σ)
  | absent

def Content.found {σ : Type} : Content σ → Found
  | .scalar m => m.found
  | .items _ => .sequence
  | .entries _ => .mapping
  | .tagged .. => .enumeration
  | .absent => .option

/-- The parts `σ` of documents, read in the monad `m`. Names given as `expected` go into the
report of a mismatch. -/
class Source (σ : Type) (m : outParam (Type → Type)) [Monad m] where
  /-- Reports a mismatch at a part. -/
  mismatch {α : Type} : σ → Mismatch → m α
  /-- What a part holds. -/
  content : σ → m (Content σ)
  text (expected : String) : σ → m String
  bool (expected : String) : σ → m Bool
  /-- A whole number of 32 bits that is not negative. -/
  natural32 : σ → m Nat
  /-- The part, unless it is null; the first part is the collection around it. -/
  present? : σ → σ → m (Option σ)
  /-- The items of a sequence. -/
  items (expected : String) : σ → m (List σ)
  /-- Accepts that `taken` items of a sequence were read and that these are left. -/
  finish (sequence : σ) (taken : Nat) : List σ → m Unit
  /-- The entries of a mapping. -/
  entries (expected : String) : σ → m (List (σ × σ))
  /-- Passes over a part without reading it. -/
  skip : σ → m Unit
  /-- Any mapping, as it is. -/
  mapping : σ → m Mapping
  /-- The value of a section without a meaning of its own. -/
  sectionValue : σ → m Value

namespace Source

variable {σ : Type} {m : Type → Type} [Monad m] [Source σ m] {α β : Type}

def unexpected (part : σ) (found : Found) (expected : String) : m α :=
  mismatch part (.invalidType found expected)

/-- Nothing for a null, else what `read` reads. -/
def optional (read : σ → m α) (collection part : σ) : m (Option α) := do
  match ← present? collection part with
  | some part => return some (← read part)
  | none => return none

/-! ## Records -/

/-- Reads the entries of a record in order. Names that `known` does not give a field are passed
over, and no field may come twice. -/
def readEntries (known : String → Option φ) [BEq φ] (fieldName : φ → String)
    (set : β → φ → σ → m β) (record : σ) : List φ → β → List (σ × σ) → m β
  | _, b, [] => return b
  | seen, b, (key, value) :: rest => do
      let name ← text "field identifier" key
      match known name with
      | none =>
          skip value
          readEntries known fieldName set record seen b rest
      | some field =>
          if seen.contains field then mismatch record (.duplicateField (fieldName field))
          else do
            let b ← set b field value
            readEntries known fieldName set record (field :: seen) b rest

/-! ## Maps -/

/-- Reads entries whose keys may not repeat; `keyText` shows a key in the report. -/
def readUnique [Ord κ] [Std.TransOrd κ] (what : String) (keyText : κ → String)
    (readKey : σ → m κ) (readValue : σ → m α) (record : σ) :
    SortedMap κ α → List (σ × σ) → m (SortedMap κ α)
  | done, [] => return done
  | done, (key, value) :: rest => do
      let k ← readKey key
      if done.contains k then mismatch record (.duplicateKey what (keyText k))
      else do
        let v ← readValue value
        readUnique what keyText readKey readValue record (done.insert k v) rest

/-- Reads a map whose keys may not repeat; null is the empty map. -/
def uniqueMap [Ord κ] [Std.TransOrd κ] (what : String) (keyText : κ → String)
    (readKey : σ → m κ) (readValue : σ → σ → m α) (part : σ) : m (SortedMap κ α) := do
  match ← content part with
  | .scalar .null => return .empty
  | .entries parts => readUnique what keyText readKey (readValue part) part .empty parts
  | other => unexpected part other.found s!"a mapping keyed by {what}"

/-- Reads entries with text keys; of those with the same key the last one counts. -/
def readMap (readValue : σ → m α) :
    SortedMap String α → List (σ × σ) → m (SortedMap String α)
  | done, [] => return done
  | done, (key, value) :: rest => do
      let k ← text "a string" key
      let v ← readValue value
      readMap readValue (done.insert k v) rest

def map (readValue : σ → m α) (part : σ) : m (SortedMap String α) := do
  readMap readValue .empty (← entries "a map" part)

end Source

/-! ## Values as a source -/

namespace Value

def content : Value → Content Value
  | .null => .scalar .null
  | .bool b => .scalar (.bool b)
  | .number (.int n) => .scalar (.int n)
  | .number (.float x) => .scalar (.float x)
  | .string s => .scalar (.text s)
  | .sequence items => .items items
  | .mapping entries => .entries entries
  | .tagged tag value => .tagged tag value

/-- Reports a value of the wrong kind, its tags aside. -/
def unexpected (v : Value) (expected : String) : Except Mismatch α :=
  .error (.invalidType v.untagged.content.found expected)

def natural32 (v : Value) : Except Mismatch Nat :=
  match v.untagged with
  | .number (.int n) =>
      if 0 ≤ n && n < Text.wordSize 32 then .ok n.toNat else .error (.invalidValue (.int n) "u32")
  | _ => v.unexpected "u32"

mutual

def isUntagged : Value → Bool
  | .tagged .. => false
  | .sequence items => areUntagged items
  | .mapping entries => areUntaggedEntries entries
  | _ => true

def areUntagged : List Value → Bool
  | [] => true
  | v :: vs => isUntagged v && areUntagged vs

def areUntaggedEntries : Mapping → Bool
  | [] => true
  | (k, v) :: es => isUntagged k && isUntagged v && areUntaggedEntries es

end

/-- Values are read strictly: a text must be a string, and only null is an empty collection. -/
instance : Source Value (Except Mismatch) where
  mismatch _ cause := .error cause
  content v := .ok v.content
  text expected v :=
    match v.untagged with
    | .string s => .ok s
    | _ => v.unexpected expected
  bool expected v :=
    match v.untagged with
    | .bool b => .ok b
    | _ => v.unexpected expected
  natural32 := natural32
  present? _ v :=
    match v with
    | .null => .ok none
    | _ => .ok (some v)
  items expected v :=
    match v.untagged with
    | .sequence items => .ok items
    | .null => .ok []
    | _ => v.unexpected expected
  finish _ taken rest :=
    if rest.isEmpty then .ok ()
    else .error (.invalidLength (taken + rest.length) "fewer elements in sequence")
  entries expected v :=
    match v.untagged with
    | .mapping entries => .ok entries
    | .null => .ok []
    | _ => v.unexpected expected
  skip _ := .ok ()
  mapping v :=
    match v.untagged with
    | .mapping entries => .ok entries
    | .null => .ok []
    | _ => v.unexpected "a YAML mapping"
  sectionValue v := if v.isUntagged then .ok v else .error .taggedContent

end Value

end BundleCheck.Yaml
