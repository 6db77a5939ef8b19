import BundleCheck.Double.Rounding

/-! # YAML values

A value is a scalar, a sequence, a mapping whose entries keep their order, or a value under an
application tag. Anchors and aliases are gone: a value is a tree. -/

namespace BundleCheck.Yaml

/-- A whole number of at most 64 bits, or a floating point number. -/
inductive Number
  | int (n : Int)
  | float (x : Double)
  deriving DecidableEq, Inhabited

/-- Equality of numbers of one kind; `1` and `1.0` are different. -/
def Number.same : Number → Number → Bool
  | .int m, .int n => m == n
  | .float x, .float y => x.same y
  | _, _ => false

inductive Value
  | null
  | bool (b : Bool)
  | number (n : Number)
  | string (s : String)
  | sequence (items : List Value)
  | mapping (entries : List (Value × Value))
  | tagged (tag : String) (value : Value)
  deriving Inhabited

/-- The entries of a mapping, in order. -/
abbrev Mapping := List (Value × Value)

namespace Value

/-! ## Sameness -/

/-- A tag without the exclamation mark that may begin it, unless that is all of the tag. -/
def tagName (tag : String) : List Char :=
  match tag.toList with
  | ['!'] => ['!']
  | '!' :: rest => rest
  | cs => cs

mutual

/-- Sameness of values, as it decides whether two mapping keys are equal: mappings are compared
without regard to order. -/
def same : Value → Value → Bool
  | .null, .null => true
  | .bool a, .bool b => a == b
  | .number m, .number n => m.same n
  | .string s, .string t => s == t
  | .sequence xs, .sequence ys => sameItems xs ys
  | .mapping es, .mapping fs => es.length == fs.length && sameEntries es fs
  | .tagged s v, .tagged t w => tagName s == tagName t && same v w
  | _, _ => false

def sameItems : List Value → List Value → Bool
  | [], [] => true
  | x :: xs, y :: ys => same x y && sameItems xs ys
  | _, _ => false

/-- Every entry on the left has a counterpart on the right. -/
def sameEntries : Mapping → Mapping → Bool
  | [], _ => true
  | (k, v) :: es, fs => (fs.any fun f => same k f.1 && same v f.2) && sameEntries es fs

end

/-! ## Repeated keys -/

mutual

/-- The first key inside a value that comes twice in its mapping. -/
def repeatedKey? : Value → Option Value
  | .sequence items => repeatedKeyOfItems? items
  | .mapping entries => repeatedKeyOfEntries? [] entries
  | .tagged _ v => repeatedKey? v
  | _ => none

def repeatedKeyOfItems? : List Value → Option Value
  | [] => none
  | v :: vs => repeatedKey? v <|> repeatedKeyOfItems? vs

/-- The first key that comes twice, or is one of those `seen` before. -/
def repeatedKeyOfEntries? : List Value → List (Value × Value) → Option Value
  | _, [] => none
  | seen, (k, v) :: rest =>
      repeatedKey? k <|> (if seen.any k.same then some k else none) <|> repeatedKey? v <|>
        repeatedKeyOfEntries? (k :: seen) rest

end

/-! ## Looking through tags -/

def untagged : Value → Value
  | .tagged _ v => v.untagged
  | v => v

def text? (v : Value) : Option String :=
  match v.untagged with
  | .string s => some s
  | _ => none

def entries? (v : Value) : Option Mapping :=
  match v.untagged with
  | .mapping es => some es
  | _ => none

def isNull (v : Value) : Bool :=
  match v.untagged with
  | .null => true
  | _ => false

/-- Replaces the entries of a mapping, below its tags. -/
def withEntries (v : Value) (es : Mapping) : Value :=
  match v with
  | .tagged tag w => .tagged tag (w.withEntries es)
  | _ => .mapping es

end Value

/-! ## Mappings -/

namespace Mapping

def get? (m : Mapping) (k : Value) : Option Value :=
  (m.find? fun e => k.same e.1).map (·.2)

def getName? (m : Mapping) (name : String) : Option Value :=
  get? m (.string name)

def contains (m : Mapping) (k : Value) : Bool :=
  m.any fun e => k.same e.1

def containsName (m : Mapping) (name : String) : Bool :=
  contains m (.string name)

/-- Stores a value under a key: in the place of the value stored before, else at the end. -/
def insert (k v : Value) : Mapping → Mapping
  | [] => [(k, v)]
  | e :: es => if k.same e.1 then (e.1, v) :: es else e :: insert k v es

/-- Removes a key. The last entry takes the place of the removed one. -/
def remove (k : Value) : Mapping → Mapping
  | [] => []
  | e :: es =>
      if k.same e.1 then
        match es.getLast? with
        | some last => last :: es.dropLast
        | none => []
      else e :: remove k es

end Mapping

end BundleCheck.Yaml
