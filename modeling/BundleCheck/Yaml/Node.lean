import BundleCheck.Yaml.Event
import BundleCheck.Yaml.Problem
import BundleCheck.Yaml.Token.Scan

/-! # YAML nodes and documents

A document is a tree of nodes. Aliases stay in the tree as numbers; a table of the numbered
nodes follows from the tree. Where the text breaks off, the tree ends in a broken node. -/

namespace BundleCheck.Yaml

/-- A node. An anchored node carries the number by which aliases name it. -/
inductive Node
  | scalar (anchor : Option Nat) (tag : Option String) (text : String) (style : ScalarStyle)
  | sequence (anchor : Option Nat) (tag : Option String) (items : List Node)
  | mapping (anchor : Option Nat) (tag : Option String) (entries : List (Node × Node))
  | alias (number : Nat)
  | absent
  | broken
  deriving Inhabited

/-- A document: its root, what is wrong with its text, and the number of its events. -/
structure Document where
  root : Node
  fault : Option Problem
  events : Nat
  deriving Inhabited

/-! ## Building trees -/

/-- A collection that is not closed yet, its parts in reverse. -/
inductive Frame
  | items (anchor : Option Nat) (tag : Option String) (reversed : List Node)
  | entries (anchor : Option Nat) (tag : Option String) (reversed : List (Node × Node))
      (key : Option Node)

/-- A tree under construction: the open collections, innermost first, the root once it is
complete, and the number of each anchor's name. -/
structure Builder where
  frames : List Frame := []
  root : Option Node := none
  anchors : List (String × Nat) := []
  names : List String := []
  events : Nat := 0

namespace Frame

def add (node : Node) : Frame → Frame
  | .items anchor tag reversed => .items anchor tag (node :: reversed)
  | .entries anchor tag reversed none => .entries anchor tag reversed (some node)
  | .entries anchor tag reversed (some key) => .entries anchor tag ((key, node) :: reversed) none

def close : Frame → Node
  | .items anchor tag reversed => .sequence anchor tag reversed.reverse
  | .entries anchor tag reversed _ => .mapping anchor tag reversed.reverse

def breakOff : Frame → Node
  | .items anchor tag reversed => .sequence anchor tag (.broken :: reversed).reverse
  | .entries anchor tag reversed key =>
      .mapping anchor tag ((key.getD .broken, .broken) :: reversed).reverse

end Frame

namespace Builder

def add (node : Node) (b : Builder) : Builder :=
  match b.frames with
  | [] => { b with root := some node }
  | frame :: outer => { b with frames := frame.add node :: outer }

/-- Numbers an anchor by the count of distinct names before it. -/
def number (name : Option String) (b : Builder) : Option Nat × Builder :=
  match name with
  | none => (none, b)
  | some name =>
      let n := b.names.length
      let names := if b.names.contains name then b.names else name :: b.names
      (some n, { b with anchors := (name, n) :: b.anchors, names })

/-- Takes in one event; nothing if it names an anchor that is not known. -/
def step (event : Event) (b : Builder) : Option Builder :=
  let b := { b with events := b.events + 1 }
  match event with
  | .alias name => (b.anchors.lookup name).map fun n => b.add (.alias n)
  | .scalar p text style =>
      let (anchor, b) := b.number p.anchor
      some (b.add (.scalar anchor p.tag text style))
  | .sequenceStart p =>
      let (anchor, b) := b.number p.anchor
      some { b with frames := .items anchor p.tag [] :: b.frames }
  | .mappingStart p =>
      let (anchor, b) := b.number p.anchor
      some { b with frames := .entries anchor p.tag [] none :: b.frames }
  | .sequenceEnd | .mappingEnd =>
      match b.frames with
      | frame :: outer => some ({ b with frames := outer }.add frame.close)
      | [] => some b
  | .streamEnd | .documentStart | .documentEnd => some b

/-- The tree, broken off where a collection is open or the root is missing. -/
def brokenRoot (b : Builder) : Node :=
  match b.frames with
  | [] => b.root.getD .broken
  | frame :: outer => outer.foldl (fun node f => (f.add node).breakOff) frame.breakOff

def broken (fault : Problem) (b : Builder) : Document :=
  ⟨b.brokenRoot, some fault, b.events⟩

def document (b : Builder) : Document :=
  ⟨b.root.getD .absent, none, b.events⟩

end Builder

/-! ## Documents -/

/-- The documents of a list of events; `first` says that none has come before. A text without
any is one document without a root. Nothing is read past a fault. -/
def Document.ofEventsFrom (first : Bool) (b : Builder) : List Event → List Document
  | [] => [b.broken .brokenSyntax]
  | .streamEnd :: _ => if first then [⟨.absent, none, 1⟩] else []
  | .documentStart :: rest => ofEventsFrom first {} rest
  | .documentEnd :: rest => b.document :: ofEventsFrom false {} rest
  | event :: rest =>
      match b.step event with
      | some b => ofEventsFrom first b rest
      | none => [b.broken .unknownAnchor]

def Document.ofText (text : String) : List Document :=
  ofEventsFrom true {} (Event.ofTokens (Token.scan text))

/-! ## Anchored nodes -/

mutual

/-- The numbered nodes of a tree, in the order in which they begin. -/
def Node.anchored : Node → List (Nat × Node)
  | node@(.scalar anchor ..) => (anchor.map fun n => (n, node)).toList
  | node@(.sequence anchor _ items) =>
      (anchor.map fun n => (n, node)).toList ++ Node.anchoredItems items
  | node@(.mapping anchor _ entries) =>
      (anchor.map fun n => (n, node)).toList ++ Node.anchoredEntries entries
  | .alias _ | .absent | .broken => []

def Node.anchoredItems : List Node → List (Nat × Node)
  | [] => []
  | item :: items => item.anchored ++ Node.anchoredItems items

def Node.anchoredEntries : List (Node × Node) → List (Nat × Node)
  | [] => []
  | (key, value) :: entries => key.anchored ++ value.anchored ++ Node.anchoredEntries entries

end

/-- The node that a number names. Where several nodes have it, it is the last of them. -/
def Document.anchors (d : Document) : List (Nat × Node) :=
  d.root.anchored.reverse

end BundleCheck.Yaml
