import BundleCheck.Text.Numeral
import BundleCheck.Yaml.Cursor
import BundleCheck.Yaml.Token

/-! # Scanning scalars

Each function starts at the scalar and answers its text with the cursor after it, or nothing
where the syntax is broken. -/

namespace BundleCheck.Yaml

/-! ## Gaps between words -/

/-- Spaces and line breaks between two words of a scalar. Once a line has ended, spaces are
indentation and are dropped. -/
structure Gap where
  spaces : List Char := []
  firstBreak : List Char := []
  laterBreaks : List Char := []
  broken : Bool := false
  deriving Inhabited

/-- The text of a gap: a single line feed is folded to a space, and the first of several is
dropped. -/
def Gap.text (g : Gap) : List Char :=
  if !g.broken then g.spaces
  else if g.firstBreak == ['\n'] then
    if g.laterBreaks.isEmpty then [' '] else g.laterBreaks
  else g.firstBreak ++ g.laterBreaks

/-- Reads a gap. A tab may not stand left of column `margin` on a new line. -/
def scanGap (margin : Nat) : Nat → Gap → Cursor → Option (Gap × Cursor)
  | 0, g, c => some (g, c)
  | fuel + 1, g, c =>
      match c.head? with
      | none => some (g, c)
      | some ch =>
          if isSpace ch then
            if g.broken && c.column < margin && ch == '\t' then none
            else if g.broken then scanGap margin fuel g (c.skip 1)
            else scanGap margin fuel { g with spaces := g.spaces ++ [ch] } (c.skip 1)
          else if isBreak ch then
            if g.broken then
              scanGap margin fuel { g with laterBreaks := g.laterBreaks ++ c.breakText } c.skipBreak
            else
              scanGap margin fuel ⟨[], c.breakText, [], true⟩ c.skipBreak
          else some (g, c)

/-! ## Plain scalars -/

/-- The characters that end a plain scalar within a flow collection. -/
def isFlowIndicator (c : Char) : Bool :=
  c == ',' || c == '[' || c == ']' || c == '{' || c == '}'

def scanPlainWord (inFlow : Bool) : List Char → List Char → Option (List Char)
  | [], word => some word.reverse
  | ch :: rest, word =>
      if isSpace ch || isBreak ch then some word.reverse
      else if ch == ':' && endsWord rest.head? then some word.reverse
      else if inFlow && ch == ':' && rest.head?.any (fun d => isFlowIndicator d || d == '?') then
        none
      else if inFlow && isFlowIndicator ch then some word.reverse
      else scanPlainWord inFlow rest (ch :: word)

/-- Reads a plain scalar whose text so far is `done`, and whose last gap is `gap`. Answers also
whether a line has ended after the last word. -/
def scanPlainFrom (inFlow : Bool) (margin : Nat) :
    Nat → List Char → Gap → Cursor → Option (List Char × Bool × Cursor)
  | 0, _, _, _ => none
  | fuel + 1, done, gap, c =>
      if c.looksAtDocumentMarker || c.looksAt '#' then some (done, gap.broken, c)
      else do
        let word ← scanPlainWord inFlow c.rest []
        let (done, gap) := if word.isEmpty then (done, gap) else (done ++ gap.text ++ word, {})
        let c := c.skip word.length
        if !c.head?.any (fun ch => isSpace ch || isBreak ch) then return (done, gap.broken, c)
        let (gap, c) ← scanGap margin c.rest.length gap c
        if !inFlow && c.column < margin then return (done, gap.broken, c)
        scanPlainFrom inFlow margin fuel done gap c

def scanPlain (inFlow : Bool) (margin : Nat) (c : Cursor) : Option (List Char × Bool × Cursor) :=
  scanPlainFrom inFlow margin (c.rest.length + 1) [] {} c

/-! ## Quoted scalars -/

def escaped? (c : Char) : Option Char :=
  match c with
  | '0' => some '\x00'
  | 'a' => some '\x07'
  | 'b' => some '\x08'
  | 't' => some '\t'
  | '\t' => some '\t'
  | 'n' => some '\n'
  | 'v' => some '\x0b'
  | 'f' => some '\x0c'
  | 'r' => some '\r'
  | 'e' => some '\x1b'
  | ' ' => some ' '
  | '"' => some '"'
  | '/' => some '/'
  | '\\' => some '\\'
  | 'N' => some '\x85'
  | '_' => some '\xa0'
  | 'L' => some '\u2028'
  | 'P' => some '\u2029'
  | _ => none

/-- The number of hexadecimal digits after an escape letter. -/
def escapeWidth? (c : Char) : Option Nat :=
  match c with
  | 'x' => some 2
  | 'u' => some 4
  | 'U' => some 8
  | _ => none

/-- The character of a code point, which may be no surrogate. -/
def charOfCode? (code : Nat) : Option Char :=
  if code.isValidChar then some (Char.ofNat code) else none

/-- Reads what follows a backslash, and says how many characters it takes. -/
def scanEscape (rest : List Char) : Option (Char × Nat) :=
  match rest with
  | [] => none
  | ch :: more =>
      match escapeWidth? ch with
      | some width => do
          let digits := more.take width
          if digits.length < width then none
          let code ← Text.digits? 16 digits
          let value ← charOfCode? code
          return (value, width + 1)
      | none => (escaped? ch).map fun value => (value, 1)

/-- Reads the characters of a quoted scalar up to a gap or the closing quote. Answers them with
the rest, the number of characters read, and whether an escaped line break ended the run. -/
def scanQuotedRun (quote : Char) :
    Nat → List Char → List Char → Nat → Option (List Char × Nat × Bool)
  | 0, _, _, _ => none
  | _ + 1, [], run, n => some (run.reverse, n, false)
  | fuel + 1, ch :: rest, run, n =>
      if isSpace ch || isBreak ch then some (run.reverse, n, false)
      else if ch == quote then
        if quote == '\'' && rest.head? == some '\'' then
          scanQuotedRun quote fuel (rest.drop 1) ('\'' :: run) (n + 2)
        else some (run.reverse, n, false)
      else if quote == '"' && ch == '\\' then
        if rest.head?.any isBreak then some (run.reverse, n + 1, true)
        else
          match scanEscape rest with
          | some (value, width) =>
              scanQuotedRun quote fuel (rest.drop width) (value :: run) (n + 1 + width)
          | none => none
      else scanQuotedRun quote fuel rest (ch :: run) (n + 1)

/-- Reads a quoted scalar after its opening quote, whose text so far is `done`. -/
def scanQuotedFrom (quote : Char) : Nat → List Char → Cursor → Option (List Char × Cursor)
  | 0, _, _ => none
  | fuel + 1, done, c =>
      if c.looksAtDocumentMarker || c.rest.isEmpty then none
      else do
        let (run, width, continued) ← scanQuotedRun quote (c.rest.length + 1) c.rest [] 0
        let done := done ++ run
        let c := c.skip width
        let (gap, c) : Gap × Cursor :=
          if continued then ({ broken := true }, c.skipBreak) else ({}, c)
        if c.looksAt quote then return (done, c.skip 1)
        let (gap, c) ← scanGap 0 c.rest.length gap c
        scanQuotedFrom quote fuel (done ++ gap.text) c

def scanQuoted (quote : Char) (c : Cursor) : Option (List Char × Cursor) :=
  scanQuotedFrom quote (c.rest.length + 1) [] (c.skip 1)

/-! ## Block scalars -/

/-- What becomes of the line breaks that end a block scalar. -/
inductive Chomping
  | strip
  | clip
  | keep
  deriving DecidableEq

def chomping? (c : Char) : Option Chomping :=
  if c == '-' then some .strip else if c == '+' then some .keep else none

/-- The indentation digit of a block scalar, which is not zero. -/
def indentDigit? (c : Char) : Option Nat :=
  (Text.digitValue? 10 c).filter (· != 0)

/-- Reads the indicators after `|` or `>`, in either order. -/
def scanBlockHeader (c : Cursor) : Option (Chomping × Option Nat × Cursor) :=
  let isDigit (ch? : Option Char) : Bool := ch?.any Text.isDigit
  match c.head?.bind chomping? with
  | some chomping =>
      let c := c.skip 1
      if isDigit c.head? then
        (c.head?.bind indentDigit?).map fun d => (chomping, some d, c.skip 1)
      else some (chomping, none, c)
  | none =>
      if isDigit c.head? then do
        let digit ← c.head?.bind indentDigit?
        let c := c.skip 1
        match c.head?.bind chomping? with
        | some chomping => return (chomping, some digit, c.skip 1)
        | none => return (.clip, some digit, c)
      else some (.clip, none, c)

/-- Reads empty lines and the indentation of the line after them. While the indentation is not
known, it is the widest one seen, but at least `least`. -/
def scanEmptyLines (indent : Option Nat) (least : Nat) :
    Nat → Nat → List Char → Cursor → Option (Nat × List Char × Cursor)
  | 0, _, _, _ => none
  | fuel + 1, widest, breaks, c =>
      let spaces := c.rest.takeWhile (· == ' ')
      let width :=
        match indent with
        | some n => min spaces.length (n - c.column)
        | none => spaces.length
      let c := c.skip width
      let widest := max widest c.column
      if indent.all (c.column < ·) && c.looksAt '\t' then none
      else if c.head?.any isBreak then
        scanEmptyLines indent least fuel widest (breaks ++ c.breakText) c.skipBreak
      else some (indent.getD (max widest least), breaks, c)

/-- A block scalar as far as it is read: the text, the break that ended its last line, the
empty lines after that, and whether the last line began with a space. -/
structure BlockText where
  text : List Char := []
  lastBreak : List Char := []
  emptyLines : List Char := []
  spaced : Bool := false

/-- The text with the breaks before a new line. In a folded scalar the break between two lines
that do not begin with spaces is a space, or nothing if empty lines lie between them. -/
def BlockText.joined (b : BlockText) (folded spaced : Bool) : List Char :=
  if folded && b.lastBreak == ['\n'] && !b.spaced && !spaced then
    b.text ++ (if b.emptyLines.isEmpty then [' '] else b.emptyLines)
  else b.text ++ b.lastBreak ++ b.emptyLines

def scanBlockLines (folded : Bool) (indent : Nat) :
    Nat → BlockText → Cursor → Option (BlockText × Cursor)
  | 0, _, _ => none
  | fuel + 1, b, c =>
      if c.column == indent && !c.rest.isEmpty then do
        let spaced := c.head?.any isSpace
        let text := b.joined folded spaced
        let (line, c) := c.span fun ch => !isBreak ch
        let lastBreak := c.breakText
        let (_, emptyLines, c) ← scanEmptyLines (some indent) indent (c.rest.length + 2) 0 []
          c.skipBreak
        scanBlockLines folded indent fuel ⟨text ++ line, lastBreak, emptyLines, spaced⟩ c
      else some (b, c)

/-- Reads a block scalar; `parent` is the indentation around it, if there is any. -/
def scanBlock (folded : Bool) (parent : Option Nat) (c : Cursor) :
    Option (List Char × Cursor) := do
  let (chomping, digit, c) ← scanBlockHeader (c.skip 1)
  let c := c.skipWhile isSpace
  let c := if c.looksAt '#' then c.skipToBreak else c
  if !endsLine c.head? then none
  let c := c.skipBreak
  let least := max 1 (parent.elim 0 (· + 1))
  let indent := digit.map fun d => parent.getD 0 + d
  let (indent, emptyLines, c) ← scanEmptyLines indent least (c.rest.length + 2) 0 [] c
  let (b, c) ← scanBlockLines folded indent (c.rest.length + 1) { emptyLines } c
  let text :=
    match chomping with
    | .strip => b.text
    | .clip => b.text ++ b.lastBreak
    | .keep => b.text ++ b.lastBreak ++ b.emptyLines
  return (text, c)

end BundleCheck.Yaml
