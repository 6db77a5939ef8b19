import BundleCheck.Yaml.Token

/-! # YAML events

Events list a text's documents and nodes in order, each collection between its start and its
end. They follow from the tokens by the grammar of YAML, read here by a machine with a stack
of states: the state says what may come next, the stack what comes after a node. -/

namespace BundleCheck.Yaml

/-- What may stand before a node. -/
structure Properties where
  anchor : Option String := none
  tag : Option String := none
  deriving DecidableEq, Inhabited

inductive Event
  | streamEnd
  | documentStart
  | documentEnd
  | alias (name : String)
  | scalar (properties : Properties) (text : String) (style : ScalarStyle)
  | sequenceStart (properties : Properties)
  | sequenceEnd
  | mappingStart (properties : Properties)
  | mappingEnd
  deriving DecidableEq, Inhabited

inductive Expected
  | document (first : Bool)
  | documentContent
  | documentEnd
  | blockNode
  | blockItem
  | bareItem
  | blockKey
  | blockValue
  | flowItem (first : Bool)
  | pairKey
  | pairValue
  | pairEnd
  | flowKey (first : Bool)
  | flowValue
  | flowNoValue
  deriving DecidableEq, Inhabited

/-- The machine: the tokens to come, what is expected, what is expected after open nodes, and
the tag handles of the document. -/
structure Grammar where
  tokens : List Token
  expected : Expected := .document true
  outer : List Expected := []
  handles : List (String × String) := []
  deriving Inhabited

/-- An event with the machine after it; nothing where the syntax is broken. -/
abbrev Step := Option (Event × Grammar)

namespace Grammar

/-! ## Moves -/

def skip (g : Grammar) : Grammar :=
  { g with tokens := g.tokens.drop 1 }

/-- Emits an event and goes on as `expected` says. -/
def emit (g : Grammar) (event : Event) (expected : Expected) : Step :=
  some (event, { g with expected })

/-- Emits an event and goes on with what is expected after the open node. -/
def emitLast (g : Grammar) (event : Event) : Step :=
  match g.outer with
  | expected :: outer => some (event, { g with expected, outer })
  | [] => none

def emptyScalar (properties : Properties) : Event :=
  .scalar properties "" .plain

def before (g : Grammar) (expected : Expected) : Grammar :=
  { g with outer := expected :: g.outer }

/-! ## Nodes -/

def resolveTag (g : Grammar) (handle suffix : String) : Option String :=
  if handle.isEmpty then some suffix
  else (g.handles.lookup handle).map (· ++ suffix)

/-- Reads an anchor and a tag, in either order. -/
def properties (g : Grammar) : Option (Properties × Grammar) :=
  match g.tokens with
  | .anchor a :: .tag handle suffix :: rest =>
      (g.resolveTag handle suffix).map fun t => (⟨some a, some t⟩, { g with tokens := rest })
  | .tag handle suffix :: .anchor a :: rest =>
      (g.resolveTag handle suffix).map fun t => (⟨some a, some t⟩, { g with tokens := rest })
  | .anchor a :: rest => some (⟨some a, none⟩, { g with tokens := rest })
  | .tag handle suffix :: rest =>
      (g.resolveTag handle suffix).map fun t => (⟨none, some t⟩, { g with tokens := rest })
  | _ => some ({}, g)

/-- Reads the start of a node. Block collections are allowed where `block` is set, and block
items without an indentation of their own where `bare` is set. -/
def node (block bare : Bool) (g : Grammar) : Step :=
  match g.tokens with
  | .alias name :: _ => g.skip.emitLast (.alias name)
  | _ => do
      let (p, g) ← g.properties
      match g.tokens with
      | [] => none
      | .blockEntry :: _ =>
          if bare then g.emit (.sequenceStart p) .bareItem
          else if p.anchor.isSome || p.tag.isSome then g.emitLast (emptyScalar p)
          else none
      | .scalar text style :: _ => g.skip.emitLast (.scalar p text style)
      | .flowSequenceStart :: _ => g.skip.emit (.sequenceStart p) (.flowItem true)
      | .flowMappingStart :: _ => g.skip.emit (.mappingStart p) (.flowKey true)
      | token :: _ =>
          if block && token == .blockSequence then g.skip.emit (.sequenceStart p) .blockItem
          else if block && token == .blockMapping then g.skip.emit (.mappingStart p) .blockKey
          else if p.anchor.isSome || p.tag.isSome then g.emitLast (emptyScalar p)
          else none

/-- Reads a node before `next`, or a scalar without text if one of `stops` comes. -/
def nodeUnless (stops : List Token) (block bare : Bool) (next : Expected) (g : Grammar) : Step :=
  match g.tokens with
  | [] => none
  | token :: _ =>
      if stops.contains token then g.emit (emptyScalar {}) next
      else (g.before next).node block bare

/-! ## Documents -/

def standardHandles : List (String × String) :=
  [("!", "!"), ("!!", "tag:yaml.org,2002:")]

/-- Reads directives: at most one version, which must be 1.1 or 1.2, and no handle twice. -/
def directives : List Token → Bool → List (String × String) →
    Option (List (String × String) × List Token)
  | .version major minor :: rest, versioned, handles =>
      if versioned || major != 1 || (minor != 1 && minor != 2) then none
      else directives rest true handles
  | .tagHandle handle opening :: rest, versioned, handles =>
      if (handles.lookup handle).isSome then none
      else directives rest versioned ((handle, opening) :: handles)
  | tokens, _, handles => some (handles ++ standardHandles, tokens)

/-- Does the token begin a document with an explicit marker, or end all documents? -/
def needsMarker : Token → Bool
  | .version .. | .tagHandle .. | .documentStart | .streamEnd => true
  | _ => false

def opened (g : Grammar) (handles : List (String × String)) (tokens : List Token) : Grammar :=
  { g with tokens, handles, outer := [.documentEnd] }

/-- Expects a document. Only the first one may go without a marker. -/
def document (first : Bool) (g : Grammar) : Step :=
  let tokens := if first then g.tokens else g.tokens.dropWhile (· == .documentEnd)
  match tokens with
  | [] => none
  | .streamEnd :: _ => g.emit .streamEnd .documentEnd
  | token :: _ =>
      if first && !needsMarker token then
        (g.opened standardHandles tokens).emit .documentStart .blockNode
      else do
        let (handles, tokens) ← directives tokens false []
        match tokens with
        | .documentStart :: rest =>
            (g.opened handles rest).emit .documentStart .documentContent
        | _ => none

def documentContent (g : Grammar) : Step :=
  match g.tokens with
  | [] => none
  | token :: _ =>
      if needsMarker token || token == .documentEnd then g.emitLast (emptyScalar {})
      else g.node true false

/-- Expects the end of a document, which needs no marker. -/
def documentEnd (g : Grammar) : Step :=
  match g.tokens with
  | [] => none
  | .documentEnd :: _ => g.skip.emit .documentEnd (.document false)
  | _ => g.emit .documentEnd (.document false)

/-! ## Block collections -/

def blockItem (g : Grammar) : Step :=
  match g.tokens with
  | .blockEntry :: _ => g.skip.nodeUnless [.blockEntry, .blockEnd] true false .blockItem
  | .blockEnd :: _ => g.skip.emitLast .sequenceEnd
  | _ => none

/-- Items at the indentation of the mapping around them end with the first other token. -/
def bareItem (g : Grammar) : Step :=
  match g.tokens with
  | [] => none
  | .blockEntry :: _ =>
      g.skip.nodeUnless [.blockEntry, .key, .value, .blockEnd] true false .bareItem
  | _ => g.emitLast .sequenceEnd

def blockKey (g : Grammar) : Step :=
  match g.tokens with
  | .key :: _ => g.skip.nodeUnless [.key, .value, .blockEnd] true true .blockValue
  | .blockEnd :: _ => g.skip.emitLast .mappingEnd
  | _ => none

def blockValue (g : Grammar) : Step :=
  match g.tokens with
  | [] => none
  | .value :: _ => g.skip.nodeUnless [.key, .value, .blockEnd] true true .blockKey
  | _ => g.emit (emptyScalar {}) .blockKey

/-! ## Flow collections -/

/-- Goes past the comma before every entry but the first of a flow collection. -/
def separator (first : Bool) (g : Grammar) : Option Grammar :=
  if first then some g
  else
    match g.tokens with
    | .flowEntry :: _ => some g.skip
    | _ => none

/-- Expects an item of a flow sequence. A key makes the item a mapping of one pair. -/
def flowItem (first : Bool) (g : Grammar) : Step :=
  match g.tokens with
  | .flowSequenceEnd :: _ => g.skip.emitLast .sequenceEnd
  | _ => do
      let g ← g.separator first
      match g.tokens with
      | [] => none
      | .key :: _ => g.skip.emit (.mappingStart {}) .pairKey
      | .flowSequenceEnd :: _ => g.skip.emitLast .sequenceEnd
      | _ => (g.before (.flowItem false)).node false false

/-- Expects the key of a pair. Where it is missing, the token after it is lost. -/
def pairKey (g : Grammar) : Step :=
  match g.tokens with
  | [] => none
  | token :: _ =>
      if [Token.value, .flowEntry, .flowSequenceEnd].contains token then
        g.skip.emit (emptyScalar {}) .pairValue
      else (g.before .pairValue).node false false

def pairValue (g : Grammar) : Step :=
  match g.tokens with
  | [] => none
  | .value :: _ => g.skip.nodeUnless [.flowEntry, .flowSequenceEnd] false false .pairEnd
  | _ => g.emit (emptyScalar {}) .pairEnd

def pairEnd (g : Grammar) : Step :=
  g.emit .mappingEnd (.flowItem false)

def flowKey (first : Bool) (g : Grammar) : Step :=
  match g.tokens with
  | .flowMappingEnd :: _ => g.skip.emitLast .mappingEnd
  | _ => do
      let g ← g.separator first
      match g.tokens with
      | [] => none
      | .key :: _ =>
          g.skip.nodeUnless [.value, .flowEntry, .flowMappingEnd] false false .flowValue
      | .flowMappingEnd :: _ => g.skip.emitLast .mappingEnd
      | _ => (g.before .flowNoValue).node false false

def flowValue (g : Grammar) : Step :=
  match g.tokens with
  | [] => none
  | .value :: _ => g.skip.nodeUnless [.flowEntry, .flowMappingEnd] false false (.flowKey false)
  | _ => g.emit (emptyScalar {}) (.flowKey false)

/-- A flow mapping's entry without a colon has no value. -/
def flowNoValue (g : Grammar) : Step :=
  if g.tokens.isEmpty then none else g.emit (emptyScalar {}) (.flowKey false)

/-! ## The machine -/

def next (g : Grammar) : Step :=
  match g.expected with
  | .document first => g.document first
  | .documentContent => g.documentContent
  | .documentEnd => g.documentEnd
  | .blockNode => g.node true false
  | .blockItem => g.blockItem
  | .bareItem => g.bareItem
  | .blockKey => g.blockKey
  | .blockValue => g.blockValue
  | .flowItem first => g.flowItem first
  | .pairKey => g.pairKey
  | .pairValue => g.pairValue
  | .pairEnd => g.pairEnd
  | .flowKey first => g.flowKey first
  | .flowValue => g.flowValue
  | .flowNoValue => g.flowNoValue

/-- The events to come, up to the end of the stream or to a fault. -/
def events : Nat → Grammar → List Event
  | 0, _ => []
  | fuel + 1, g =>
      match g.next with
      | some (.streamEnd, _) => [.streamEnd]
      | some (event, g) => event :: events fuel g
      | none => []

end Grammar

/-- The events of a list of tokens. They break off where the syntax is broken; only a whole
text has a last event `streamEnd`. -/
def Event.ofTokens (tokens : List Token) : List Event :=
  Grammar.events (8 * tokens.length + 16) { tokens }

end BundleCheck.Yaml
