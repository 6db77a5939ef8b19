import BundleCheck.Yaml.Scalar

/-! # Writing JSON

Values are written with one entry or item a line, two columns for each level of nesting. Keys
must be scalars; numbers and truth values become texts. -/

namespace BundleCheck.Yaml

inductive JsonError
  | keyNotText
  | keyNotFinite
  | pathNotText
  deriving DecidableEq

def JsonError.message : JsonError → String
  | .keyNotText => "key must be a string"
  | .keyNotFinite => "float key must be finite (got NaN or +/-inf)"
  | .pathNotText => "path contains invalid UTF-8 characters"

namespace Json

/-! ## Scalars -/

def stringChar (c : Char) : List Char :=
  let code := c.toNat
  if c == '"' || c == '\\' then ['\\', c]
  else if code == 0x08 then ['\\', 'b']
  else if code == 0x0C then ['\\', 'f']
  else if c == '\n' then ['\\', 'n']
  else if c == '\r' then ['\\', 'r']
  else if c == '\t' then ['\\', 't']
  else if code < 0x20 then
    '\\' :: 'u' :: '0' :: '0' :: (if code < 0x10 then '0' :: Nat.toDigits 16 code
      else Nat.toDigits 16 code)
  else [c]

def string (cs : List Char) : List Char :=
  '"' :: cs.flatMap stringChar ++ ['"']

/-- Numbers are laid out as in YAML, but for the plus sign of an exponent. -/
def floatLayout : Double.Layout :=
  { Scalar.floatLayout with plus := ['+'] }

/-- A number; one that is not finite is null. -/
def number : Number → List Char
  | .int n => (toString n).toList
  | .float x => if x.isFinite then floatLayout.text x else "null".toList

def bool (b : Bool) : List Char :=
  (if b then "true" else "false").toList

def key : Value → Except JsonError (List Char)
  | .string s => .ok (string s.toList)
  | .bool b => .ok (string (bool b))
  | .number (.int n) => .ok (string (number (.int n)))
  | .number (.float x) =>
      if x.isFinite then .ok (string (number (.float x))) else .error .keyNotFinite
  | _ => .error .keyNotText

/-! ## Collections -/

def newLine (level : Nat) : List Char :=
  '\n' :: List.replicate (2 * level) ' '

/-- Parts on lines of their own between two brackets. -/
def bracketed (opening closing : Char) (level : Nat) (parts : List (List Char)) : List Char :=
  match parts with
  | [] => [opening, closing]
  | first :: rest =>
      let line (part : List Char) : List Char := newLine (level + 1) ++ part
      opening :: line first ++ rest.flatMap (fun part => ',' :: line part) ++
        newLine level ++ [closing]

def entry (key value : List Char) : List Char :=
  key ++ ':' :: ' ' :: value

mutual

/-- A value at a level of nesting. A tagged value is an object whose key is the tag. -/
def value (level : Nat) : Value → Except JsonError (List Char)
  | .null => .ok "null".toList
  | .bool b => .ok (bool b)
  | .number n => .ok (number n)
  | .string s => .ok (string s.toList)
  | .sequence xs => (items (level + 1) xs).map (bracketed '[' ']' level)
  | .mapping es => (entries (level + 1) es).map (bracketed '\x7b' '\x7d' level)
  | .tagged tag v => do
      let inner ← value (level + 1) v
      return bracketed '\x7b' '\x7d' level [entry (string ('!' :: Value.tagName tag)) inner]

def items (level : Nat) : List Value → Except JsonError (List (List Char))
  | [] => .ok []
  | x :: xs => do
      let first ← value level x
      return first :: (← items level xs)

def entries (level : Nat) : Mapping → Except JsonError (List (List Char))
  | [] => .ok []
  | (k, v) :: es => do
      let first := entry (← key k) (← value level v)
      return first :: (← entries level es)

end

end Json

def Value.writeJson (v : Value) : Except JsonError String :=
  (Json.value 0 v).map String.ofList

end BundleCheck.Yaml
