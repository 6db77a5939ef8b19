import BundleCheck.Yaml.Node
import BundleCheck.Yaml.Source

/-! # Reading documents

A reader turns a document into what it describes. It goes through the nodes in the order of the
text, so that of several problems the first one is reported. Aliases are followed where they
stand; how often, and how deep collections nest, is limited. -/

namespace BundleCheck.Yaml

structure Surroundings where
  anchors : List (Nat × Node)
  fault : Problem

/-- A reader; its state is the number of aliases that it may still follow. -/
abbrev Reader (α : Type) := ReaderT Surroundings (StateT Nat (Except Problem)) α

/-- A node with its place and the number of collections that may still be entered. In `tagged`
nodes the tag is already read. -/
structure Cell where
  node : Node
  place : Path
  depth : Nat
  tagged : Bool := false

namespace Reader

/-! ## Failing -/

def stop (problem : Problem) : Reader α :=
  fun _ _ => .error problem

def mismatch (place : Path) (cause : Mismatch) : Reader α :=
  stop (.mismatch place cause)

def breakOff : Reader α := do
  stop (← read).fault

/-! ## Following aliases -/

/-- The node that an alias names, or the node itself. -/
def follow (c : Cell) : Reader Cell :=
  match c.node with
  | .alias number => do
      let left ← get
      if left = 0 then stop .repetitionLimit
      set (left - 1)
      match (← read).anchors.lookup number with
      | some node => return { c with node, tagged := false }
      | none => breakOff
  | _ => return c

/-! ## Cells of collections -/

def itemCells (c : Cell) (items : List Node) : Reader (List Cell) :=
  match c.depth with
  | 0 => stop .recursionLimit
  | depth + 1 => return items.mapIdx fun i node => { node, place := .item c.place i, depth }

def valuePlace (c : Cell) : Node → Path
  | .scalar _ _ text _ => .entry c.place text
  | _ => .unnamed c.place

/-- The cells of a mapping. A key has the place of the mapping. -/
def entryCells (c : Cell) (entries : List (Node × Node)) : Reader (List (Cell × Cell)) :=
  match c.depth with
  | 0 => stop .recursionLimit
  | depth + 1 =>
      return entries.map fun e =>
        ({ node := e.1, place := c.place, depth },
          { node := e.2, place := valuePlace c e.1, depth })

/-! ## Scalars -/

def coreTag (name : String) : String := "tag:yaml.org,2002:" ++ name

/-- The application tag of a node: one that begins with an exclamation mark, which is left out
unless it is all of the tag. -/
def applicationTag? (tag : Option String) : Option String :=
  match tag.map String.toList with
  | some ['!'] => some "!"
  | some ('!' :: rest) => some (String.ofList rest)
  | _ => none

/-- The meaning of a scalar. Tags of the core schema force a kind, and quotes make a text. -/
def meaning (tag : Option String) (text : String) (style : ScalarStyle) :
    Except Mismatch Meaning :=
  let plainOrText := if style == .plain then Scalar.resolve text else .text text
  match tag with
  | none => .ok plainOrText
  | some tag =>
      if tag == coreTag "bool" then
        match Scalar.boolOfWord? text.toList with
        | some b => .ok (.bool b)
        | none => .error (.invalidValue (.text text) "a boolean")
      else if tag == coreTag "int" then
        match Scalar.int? text.toList with
        | some n => .ok n
        | none => .error (.invalidValue (.text text) "an integer")
      else if tag == coreTag "float" then
        match Scalar.float? text.toList with
        | some x => .ok (.float x)
        | none => .error (.invalidValue (.text text) "a float")
      else if tag == coreTag "null" then
        if Scalar.isNullWord text.toList then .ok .null
        else .error (.invalidValue (.text text) "null")
      else if tag.toList.head? == some '!' then .ok plainOrText
      else .ok (.text text)

def cellMeaning (c : Cell) (tag : Option String) (text : String) (style : ScalarStyle) :
    Reader Meaning :=
  match meaning (if c.tagged then none else tag) text style with
  | .ok m => return m
  | .error cause => mismatch c.place cause

/-! ## Content -/

def content (c : Cell) : Reader (Content Cell) := do
  let c ← follow c
  let inside := { c with tagged := true }
  let application? (tag : Option String) := if c.tagged then none else applicationTag? tag
  match c.node with
  | .scalar _ tag text style =>
      match application? tag with
      | some name => return .tagged name inside
      | none => return .scalar (← cellMeaning c tag text style)
  | .sequence _ tag items =>
      match application? tag with
      | some name => return .tagged name inside
      | none => return .items (← itemCells c items)
  | .mapping _ tag entries =>
      match application? tag with
      | some name => return .tagged name inside
      | none => return .entries (← entryCells c entries)
  | .absent => return .absent
  | .alias _ | .broken => breakOff

def unexpected (c : Cell) (found : Found) (expected : String) : Reader α :=
  mismatch c.place (.invalidType found expected)

/-! ## Particular kinds -/

/-- Reports a node of the wrong kind, whatever its tag. -/
def wrongKind (c : Cell) (expected : String) : Reader α :=
  match c.node with
  | .scalar _ tag text style => do
      unexpected c (← cellMeaning { c with tagged := false } tag text style).found expected
  | .sequence .. => unexpected c .sequence expected
  | .mapping .. => unexpected c .mapping expected
  | .absent => stop .endOfText
  | .alias _ | .broken => breakOff

/-- A scalar's text, whatever its kind. -/
def text (expected : String) (c : Cell) : Reader String := do
  let c ← follow c
  match c.node with
  | .scalar _ _ text _ => return text
  | _ => wrongKind c expected

/-- Whether a scalar is read by its kind: a plain one, or a literal block with the kind's tag. -/
def hasKind (c : Cell) (kind : String) (tag : Option String) (style : ScalarStyle) : Bool :=
  style == .plain || (style == .literal && !c.tagged && tag == some (coreTag kind))

def bool (expected : String) (c : Cell) : Reader Bool := do
  let c ← follow c
  match c.node with
  | .scalar _ tag text style =>
      match Scalar.boolOfWord? text.toList, hasKind c "bool" tag style with
      | some b, true => return b
      | _, _ => wrongKind c expected
  | _ => wrongKind c expected

def natural32 (c : Cell) : Reader Nat := do
  let c ← follow c
  match c.node with
  | .scalar _ tag text style =>
      let n? :=
        match Scalar.int? text.toList with
        | some (.int n) => if text.toList.head? == some '-' then none else some n.toNat
        | _ => none
      match n?, hasKind c "int" tag style with
      | some n, true =>
          if n < Text.wordSize 32 then return n
          else mismatch c.place (.invalidValue (.int n) "u32")
      | _, _ => wrongKind c "u32"
  | _ => wrongKind c "u32"

/-- The cell, unless it is null. A text tagged as null is reported at the collection around it. -/
def present? (collection c : Cell) : Reader (Option Cell) := do
  let c ← follow c
  match c.node with
  | .scalar _ tag text .plain =>
      let isNull := Scalar.isNullWord text.toList
      match if c.tagged then none else tag with
      | some tag =>
          if tag == coreTag "null" then
            if isNull then return none
            else mismatch collection.place (.invalidValue (.text text) "null")
          else return some c
      | none => if text.isEmpty || isNull then return none else return some c
  | .absent => return none
  | .broken => breakOff
  | _ => return some c

/-- A plain scalar without text counts as an empty collection. -/
def isVacant : Node → Bool
  | .scalar _ _ text .plain => text.isEmpty
  | .absent => true
  | _ => false

def items (expected : String) (c : Cell) : Reader (List Cell) := do
  let c ← follow c
  match c.node with
  | .sequence _ _ items => itemCells c items
  | node => if isVacant node then return [] else wrongKind c expected

def entries (expected : String) (c : Cell) : Reader (List (Cell × Cell)) := do
  let c ← follow c
  match c.node with
  | .mapping _ _ entries => entryCells c entries
  | node => if isVacant node then return [] else wrongKind c expected

/-! ## Skipping -/

mutual

/-- The text does not break off inside a node. -/
def isWhole : Node → Bool
  | .broken => false
  | .sequence _ _ items => areWhole items
  | .mapping _ _ entries => areWholeEntries entries
  | _ => true

def areWhole : List Node → Bool
  | [] => true
  | item :: items => isWhole item && areWhole items

def areWholeEntries : List (Node × Node) → Bool
  | [] => true
  | (key, value) :: entries => isWhole key && isWhole value && areWholeEntries entries

end

def skip (c : Cell) : Reader Unit :=
  if isWhole c.node then return () else breakOff

/-! ## Values -/

/-- How values are read: how a report names them, and whether tags are kept and repeated keys
let through. -/
structure ValueRules where
  expected : String
  tags : Bool
  repeats : Bool

def anyValue : ValueRules := ⟨"any YAML value", true, false⟩

/-- The value of a section without a meaning of its own. -/
def sectionContent : ValueRules := ⟨"any value", false, true⟩

def scalarValue (rules : ValueRules) (place : Path) : Meaning → Reader Value
  | .null => return .null
  | .bool b => return .bool b
  | .int n => return .number (.int n)
  | .wide n => mismatch place (.invalidType (.wide n) rules.expected)
  | .float x => return .number (.float x)
  | .text s => return .string s

def addEntries (rules : ValueRules) (readValue : Cell → Reader Value) (place : Path) :
    Mapping → List (Cell × Cell) → Reader Mapping
  | done, [] => return done
  | done, (key, cell) :: rest => do
      let k ← readValue key
      if !rules.repeats && done.contains k then mismatch place (.duplicateEntry k)
      let v ← readValue cell
      addEntries rules readValue place (done ++ [(k, v)]) rest

/-- Reads a value. The fuel bounds the nesting of collections and tags. -/
def valueWithin (rules : ValueRules) : Nat → Cell → Reader Value
  | 0, _ => stop .recursionLimit
  | fuel + 1, c => do
      match ← content c with
      | .scalar m => scalarValue rules c.place m
      | .items cells => return .sequence (← cells.mapM (valueWithin rules fuel))
      | .entries cells =>
          return .mapping (← addEntries rules (valueWithin rules fuel) c.place [] cells)
      | .tagged tag inside =>
          if rules.tags then return .tagged tag (← valueWithin rules fuel inside)
          else mismatch c.place .taggedContent
      | .absent => return .null

def maxDepth : Nat := 128

/-- Reads a value by the rules. A tag and its collection take two steps of fuel, and a level of
nesting no more than that. -/
def valueBy (rules : ValueRules) (c : Cell) : Reader Value :=
  valueWithin rules (2 * maxDepth + 3) c

def value (c : Cell) : Reader Value :=
  valueBy anyValue c

def mapping (c : Cell) : Reader Mapping := do
  addEntries anyValue value c.place [] (← entries "a YAML mapping" c)

/-! ## Cells as a source -/

/-- Accepts the items of a sequence after the first `taken`: there must be none. -/
def finish (sequence : Cell) (taken : Nat) (rest : List Cell) : Reader Unit := do
  rest.forM skip
  if !rest.isEmpty then
    mismatch sequence.place
      (.invalidLength (taken + rest.length) s!"sequence of {taken} elements")

/-- A text's scalars are read leniently: any of them is a text where one is expected, and an
empty one is an empty collection. -/
instance : Source Cell (ReaderT Surroundings (StateT Nat (Except Problem))) where
  mismatch c cause := mismatch c.place cause
  content := content
  text := text
  bool := bool
  natural32 := natural32
  present? := present?
  items := items
  finish := finish
  entries := entries
  skip := skip
  mapping := mapping
  sectionValue := valueBy sectionContent

end Reader

/-! ## Whole texts -/

/-- Reads a document, and then reports what is wrong with its text. -/
def Document.read (reader : Cell → Reader α) (d : Document) : Except Problem α := do
  let surroundings : Surroundings := ⟨d.anchors, d.fault.getD .endOfText⟩
  let cell : Cell := { node := d.root, place := .root, depth := Reader.maxDepth }
  let (result, _) ← (reader cell).run surroundings (d.events * 100)
  match d.fault with
  | some fault => .error fault
  | none => .ok result

def readText (reader : Cell → Reader α) (text : String) : Except Problem α :=
  match Document.ofText text with
  | [] => .error .endOfText
  | [d] => d.read reader
  | d :: _ => do
      let _ ← d.read reader
      .error .severalDocuments

def readValues (text : String) : Except Problem (List Value) :=
  (Document.ofText text).mapM (Document.read Reader.value)

end BundleCheck.Yaml
