import BundleCheck.Yaml.Token.Property
import BundleCheck.Yaml.Token.Scalar

/-! # Scanning a YAML text

Most tokens are told by their first character. A mapping key without an indicator is known
only when its colon comes: until then the place where a `key` token would go is kept as a
candidate, and the token is put in behind what was scanned since. -/

namespace BundleCheck.Yaml

/-! ## The scanner's memory -/

/-- A place where a key without an indicator may have begun. A required one must turn out to be
a key. -/
structure KeyCandidate where
  required : Bool
  token : Nat
  index : Nat
  line : Nat
  column : Nat

/-- What the scanner knows: where it is, the tokens so far, one candidate for a key per level
of flow collections, innermost first, and the indentations of the open block collections. -/
structure Scan where
  cursor : Cursor
  tokens : Array Token := #[]
  candidates : List (Option KeyCandidate) := [none]
  indent : Int := -1
  indents : List Int := []
  keyAllowed : Bool := true
  finished : Bool := false

namespace Scan

def inFlow (s : Scan) : Bool :=
  1 < s.candidates.length

def push (token : Token) (s : Scan) : Scan :=
  { s with tokens := s.tokens.push token }

/-- Goes past `n` characters that make a token. -/
def take (n : Nat) (token : Token) (s : Scan) : Scan :=
  { s.push token with cursor := s.cursor.skip n }

/-! ## Indentation -/

/-- Opens a block collection at a column right of the current indentation. Its token goes in at
position `place`. -/
def openBlock (column : Nat) (place : Nat) (token : Token) (s : Scan) : Scan :=
  if !s.inFlow && s.indent < column then
    { s with
      indent := column
      indents := s.indent :: s.indents
      tokens := s.tokens.insertIdxIfInBounds place token }
  else s

/-- Closes the given open block collections as far as they lie right of `column`. -/
def closeFrom (column : Int) : List Int → Scan → Scan
  | [], s => s
  | outer :: rest, s =>
      if column < s.indent then
        closeFrom column rest { s.push .blockEnd with indent := outer, indents := rest }
      else s

def closeBlocks (column : Int) (s : Scan) : Scan :=
  if s.inFlow then s else closeFrom column s.indents s

/-! ## Key candidates -/

/-- Gives up the innermost candidate, unless it is required. -/
def dropCandidate (s : Scan) : Option Scan :=
  match s.candidates with
  | some candidate :: outer =>
      if candidate.required then none else some { s with candidates := none :: outer }
  | _ => some s

def saveCandidate (s : Scan) : Option Scan :=
  if s.keyAllowed then do
    let s ← s.dropCandidate
    let c := s.cursor
    let candidate : KeyCandidate :=
      ⟨!s.inFlow && s.indent == c.column, s.tokens.size, c.index, c.line, c.column⟩
    return { s with candidates := some candidate :: s.candidates.drop 1 }
  else some s

/-- A key is written on one line and has at most 1024 characters. -/
def isStale (c : Cursor) (candidate : KeyCandidate) : Bool :=
  candidate.line < c.line || candidate.index + 1024 < c.index

/-- Gives up the candidates that can no longer be keys. -/
def dropStale (s : Scan) : Option Scan :=
  let stale := isStale s.cursor
  if s.candidates.any fun k => k.any fun k => stale k && k.required then none
  else some { s with candidates := s.candidates.map fun k => k.filter fun k => !stale k }

/-- The number of tokens that are certain: none can go in before them any more. -/
def certain (s : Scan) : Nat :=
  (s.candidates.filterMap id).foldl (fun n k => min n k.token) s.tokens.size

/-! ## Fetching tokens -/

/-- Goes to the next token, past spaces, comments and line ends. A tab counts as a space where
no key can begin. -/
def toNextToken : Nat → Scan → Scan
  | 0, s => s
  | fuel + 1, s =>
      let c := s.cursor
      let c := if c.index == 0 && c.looksAt '\ufeff' then c.skip 1 else c
      let tabs := s.inFlow || !s.keyAllowed
      let c := c.skipWhile fun ch => ch == ' ' || (tabs && ch == '\t')
      let c := if c.looksAt '#' then c.skipToBreak else c
      if c.head?.any isBreak then
        toNextToken fuel
          { s with cursor := c.skipBreak, keyAllowed := s.keyAllowed || !s.inFlow }
      else { s with cursor := c }

def endBlocks (s : Scan) : Option Scan := do
  let s ← (s.closeBlocks (-1)).dropCandidate
  return { s with keyAllowed := false }

def fetchStreamEnd (s : Scan) : Option Scan := do
  let s ← s.endBlocks
  return { s.push .streamEnd with finished := true }

def fetchDirective (s : Scan) : Option Scan := do
  let s ← s.endBlocks
  let (token, c) ← scanDirective s.cursor
  return { s.push token with cursor := c }

def fetchDocumentMarker (token : Token) (s : Scan) : Option Scan := do
  let s ← s.endBlocks
  return s.take 3 token

def fetchFlowStart (token : Token) (s : Scan) : Option Scan := do
  let s ← s.saveCandidate
  return { s.take 1 token with candidates := none :: s.candidates, keyAllowed := true }

def fetchFlowEnd (token : Token) (s : Scan) : Option Scan := do
  let s ← s.dropCandidate
  let outer := if s.inFlow then s.candidates.drop 1 else s.candidates
  return { s.take 1 token with candidates := outer, keyAllowed := false }

def fetchFlowEntry (s : Scan) : Option Scan := do
  let s ← s.dropCandidate
  return { s.take 1 .flowEntry with keyAllowed := true }

def fetchBlockEntry (s : Scan) : Option Scan := do
  if !s.inFlow && !s.keyAllowed then none
  let s ← (s.openBlock s.cursor.column s.tokens.size .blockSequence).dropCandidate
  return { s.take 1 .blockEntry with keyAllowed := true }

def fetchKey (s : Scan) : Option Scan := do
  if !s.inFlow && !s.keyAllowed then none
  let s ← (s.openBlock s.cursor.column s.tokens.size .blockMapping).dropCandidate
  return { s.take 1 .key with keyAllowed := !s.inFlow }

/-- A colon makes the candidate a key, if there is one. -/
def fetchValue (s : Scan) : Option Scan :=
  match s.candidates with
  | some k :: outer =>
      let s := { s with
        tokens := s.tokens.insertIdxIfInBounds k.token .key
        candidates := none :: outer }
      let s := s.openBlock k.column k.token .blockMapping
      some { s.take 1 .value with keyAllowed := false }
  | _ =>
      if !s.inFlow && !s.keyAllowed then none
      else
        let s := s.openBlock s.cursor.column s.tokens.size .blockMapping
        some { s.take 1 .value with keyAllowed := !s.inFlow }

def fetchAnchor (token : String → Token) (s : Scan) : Option Scan := do
  let s ← s.saveCandidate
  let (name, c) ← scanAnchorName s.cursor
  return { s.push (token name) with cursor := c, keyAllowed := false }

def fetchTag (s : Scan) : Option Scan := do
  let s ← s.saveCandidate
  let (token, c) ← scanTag s.inFlow s.cursor
  return { s.push token with cursor := c, keyAllowed := false }

def indentation? (s : Scan) : Option Nat :=
  if s.indent < 0 then none else some s.indent.toNat

def fetchBlockScalar (folded : Bool) (s : Scan) : Option Scan := do
  let s ← s.dropCandidate
  let (text, c) ← scanBlock folded s.indentation? s.cursor
  let style := if folded then ScalarStyle.folded else .literal
  return { s.push (.scalar (String.ofList text) style) with cursor := c, keyAllowed := true }

def fetchQuoted (quote : Char) (s : Scan) : Option Scan := do
  let s ← s.saveCandidate
  let (text, c) ← scanQuoted quote s.cursor
  let style := if quote == '"' then ScalarStyle.doubleQuoted else .singleQuoted
  return { s.push (.scalar (String.ofList text) style) with cursor := c, keyAllowed := false }

def fetchPlain (s : Scan) : Option Scan := do
  let s ← s.saveCandidate
  let (text, ended, c) ← scanPlain s.inFlow (s.indent + 1).toNat s.cursor
  return { s.push (.scalar (String.ofList text) .plain) with cursor := c, keyAllowed := ended }

def startsPlain (inFlow : Bool) (ch : Char) (next : Option Char) : Bool :=
  if ch == '-' then !next.any isSpace
  else if ch == '?' || ch == ':' then !inFlow && !endsWord next
  else !(isSpace ch || ",[]\x7b\x7d#&*!|>'\"%@\x60".toList.contains ch)

def fetchToken (s : Scan) : Option Scan :=
  let c := s.cursor
  match c.head? with
  | none => s.fetchStreamEnd
  | some ch =>
      if c.column == 0 && ch == '%' then s.fetchDirective
      else if c.looksAtMarker '-' then s.fetchDocumentMarker .documentStart
      else if c.looksAtMarker '.' then s.fetchDocumentMarker .documentEnd
      else if ch == '[' then s.fetchFlowStart .flowSequenceStart
      else if ch == '{' then s.fetchFlowStart .flowMappingStart
      else if ch == ']' then s.fetchFlowEnd .flowSequenceEnd
      else if ch == '}' then s.fetchFlowEnd .flowMappingEnd
      else if ch == ',' then s.fetchFlowEntry
      else if ch == '-' && endsWord (c.at? 1) then s.fetchBlockEntry
      else if ch == '?' && (s.inFlow || endsWord (c.at? 1)) then s.fetchKey
      else if ch == ':' && (s.inFlow || endsWord (c.at? 1)) then s.fetchValue
      else if ch == '*' then s.fetchAnchor .alias
      else if ch == '&' then s.fetchAnchor .anchor
      else if ch == '!' then s.fetchTag
      else if ch == '|' && !s.inFlow then s.fetchBlockScalar false
      else if ch == '>' && !s.inFlow then s.fetchBlockScalar true
      else if ch == '\'' || ch == '"' then s.fetchQuoted ch
      else if startsPlain s.inFlow ch (c.at? 1) then s.fetchPlain
      else none

/-- Reads the next token, and then gives up what can no longer be a key. -/
def fetchNext (s : Scan) : Option Scan := do
  let s ← (s.toNextToken (s.cursor.rest.length + 1)).dropStale
  let s ← (s.closeBlocks s.cursor.column).fetchToken
  s.dropStale

/-- The certain tokens of the rest of a text. They break off where the syntax is broken. -/
def remaining : Nat → Scan → List Token
  | 0, s => s.tokens.toList
  | fuel + 1, s =>
      if s.finished then s.tokens.toList
      else
        match s.fetchNext with
        | some next => remaining fuel next
        | none => s.tokens.toList.take s.certain

end Scan

def isYamlChar (c : Char) : Bool :=
  let code := c.toNat
  c == '\t' || c == '\n' || c == '\r' || (0x20 ≤ code && code ≤ 0x7E) || code == 0x85 ||
    (0xA0 ≤ code && code ≤ 0xD7FF) || (0xE000 ≤ code && code ≤ 0xFFFD) || 0x10000 ≤ code

def Token.scan (text : String) : List Token :=
  let cs := text.toList
  if cs.all isYamlChar then Scan.remaining (cs.length + 1) { cursor := .start cs } else []

end BundleCheck.Yaml
