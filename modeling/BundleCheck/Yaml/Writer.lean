import BundleCheck.Text.Numeral
import BundleCheck.Yaml.Cursor
import BundleCheck.Yaml.Token
import BundleCheck.Yaml.Value
import BundleCheck.Yaml.Scalar

/-! # Writing YAML

Values are written in block style, one entry a line, two columns for each level of nesting.
Sequences under a mapping key stand at the column of the key, and lines are never folded. -/

namespace BundleCheck.Yaml

/-! ## Scalars -/

/-- Characters that can stand in a scalar without an escape. -/
def isWritable (c : Char) : Bool :=
  let code := c.toNat
  code == 0x0A || (0x20 ≤ code && code ≤ 0x7E) ||
    (0xA0 ≤ code && code != 0xFEFF && code != 0xFFFE && code != 0xFFFF)

/-- What the shape of a text says about the styles it can be written in. -/
structure TextShape where
  hasBreak : Bool := false
  hasIndicator : Bool := false
  hasUnwritable : Bool := false
  spaceAtEnd : Bool := false
  openEnds : Bool := false
  breakBeforeSpace : Bool := false
  spaceBeforeBreak : Bool := false

namespace TextShape

/-- A character that would be read as syntax at the start of a plain scalar. -/
def isOpeningIndicator (c : Char) (next : Option Char) : Bool :=
  "#,[]\x7b\x7d&*!|>'\"%@\x60".toList.contains c ||
    ((c == '?' || c == ':' || c == '-') && endsWord next)

/-- A character that would be read as syntax inside a plain scalar. -/
def isInnerIndicator (previous c : Char) (next : Option Char) : Bool :=
  (c == ':' && endsWord next) || (c == '#' && endsWord (some previous))

/-- The shape of a text after its first character `previous`. -/
def scan (previous : Char) : List Char → TextShape → TextShape
  | [], s => { s with
      spaceAtEnd := previous == ' '
      openEnds := s.openEnds || previous == ' ' || isBreak previous }
  | c :: rest, s =>
      scan c rest { s with
        hasBreak := s.hasBreak || isBreak c
        hasIndicator := s.hasIndicator || isInnerIndicator previous c rest.head?
        hasUnwritable := s.hasUnwritable || !isWritable c
        breakBeforeSpace := s.breakBeforeSpace || (isBreak previous && c == ' ')
        spaceBeforeBreak := s.spaceBeforeBreak || (previous == ' ' && isBreak c) }

def of : List Char → TextShape
  | [] => {}
  | c :: rest =>
      let marker := c == '-' || c == '.'
      scan c rest {
        hasBreak := isBreak c
        hasIndicator := isOpeningIndicator c rest.head? || (marker && [c, c].isPrefixOf rest)
        hasUnwritable := !isWritable c
        openEnds := c == ' ' || isBreak c }

/-- The text can only be written between double quotes. -/
def needsEscapes (s : TextShape) : Bool :=
  s.hasUnwritable || s.spaceBeforeBreak

def allowsPlain (s : TextShape) : Bool :=
  !(s.needsEscapes || s.hasBreak || s.hasIndicator || s.openEnds)

def allowsSingleQuotes (s : TextShape) : Bool :=
  !(s.needsEscapes || s.breakBeforeSpace)

def allowsLiteral (s : TextShape) : Bool :=
  !(s.needsEscapes || s.spaceAtEnd)

end TextShape

/-- The style that a string asks for: a literal block if it has lines, quotes if it would be
read as something else. -/
def stringStyle (s : String) : ScalarStyle :=
  if s.toList.contains '\n' then .literal
  else
    match Scalar.resolve s with
    | .text _ => if Scalar.isPaddedNumber s.toList then .singleQuoted else .plain
    | _ => .singleQuoted

/-- The style that a text gets. Keys are written on one line. -/
def chosenStyle (isKey : Bool) (wanted : ScalarStyle) (cs : List Char) : ScalarStyle :=
  let shape := TextShape.of cs
  let wanted := if isKey && shape.hasBreak then .doubleQuoted else wanted
  match wanted with
  | .plain =>
      if shape.allowsPlain && !(cs.isEmpty && isKey) then .plain
      else if shape.allowsSingleQuotes then .singleQuoted
      else .doubleQuoted
  | .singleQuoted => if shape.allowsSingleQuotes then .singleQuoted else .doubleQuoted
  | .literal | .folded =>
      if !cs.isEmpty && shape.allowsLiteral && !isKey then .literal else .doubleQuoted
  | .doubleQuoted => .doubleQuoted

/-- A code point in hexadecimal capitals, of at least `width` digits. -/
def hexDigits (width code : Nat) : List Char :=
  let digits := (Nat.toDigits 16 code).map Char.toUpper
  List.replicate (width - digits.length) '0' ++ digits

def escapedChar (c : Char) : List Char :=
  let escape (letter : Char) : List Char := ['\\', letter]
  match c with
  | '\x00' => escape '0'
  | '\x07' => escape 'a'
  | '\x08' => escape 'b'
  | '\t' => escape 't'
  | '\n' => escape 'n'
  | '\x0b' => escape 'v'
  | '\x0c' => escape 'f'
  | '\r' => escape 'r'
  | '\x1b' => escape 'e'
  | '"' => escape '"'
  | '\\' => escape '\\'
  | '\x85' => escape 'N'
  | '\u2028' => escape 'L'
  | '\u2029' => escape 'P'
  | _ =>
      if isWritable c then [c]
      else if c.toNat ≤ 0xFF then escape 'x' ++ hexDigits 2 c.toNat
      else if c.toNat ≤ 0xFFFF then escape 'u' ++ hexDigits 4 c.toNat
      else escape 'U' ++ hexDigits 8 c.toNat

/-- The indicators after the bar of a literal block: its indentation if that cannot be seen, and
what becomes of the breaks at its end. -/
def literalHints (cs : List Char) : List Char :=
  let indentation :=
    match cs with
    | c :: _ => if c == ' ' || isBreak c then ['2'] else []
    | [] => []
  let ending :=
    match cs.reverse with
    | [] => ['-']
    | last :: before =>
        if !isBreak last then ['-']
        else
          match before with
          | [] => ['+']
          | c :: _ => if isBreak c then ['+'] else []
  indentation ++ ending

/-! ## The pen -/

/-- A text under construction, last character first. `column` is where the next character goes;
`spaced` says that it needs no space before it, and `indenting` that the line has only
indentation and indicators so far. -/
structure Pen where
  reversed : List Char := []
  column : Nat := 0
  spaced : Bool := true
  indenting : Bool := true

namespace Pen

def put (cs : List Char) (p : Pen) : Pen :=
  { p with reversed := cs.reverse ++ p.reversed, column := p.column + cs.length }

def lineBreak (c : Char) (p : Pen) : Pen :=
  { p with reversed := c :: p.reversed, column := 0 }

def space (p : Pen) : Pen :=
  if p.spaced then p else p.put [' ']

def indentTo (column : Nat) (p : Pen) : Pen :=
  let fresh := p.indenting && (p.column < column || (p.column == column && p.spaced))
  let p := if fresh then p else p.lineBreak '\n'
  { p.put (List.replicate (column - p.column) ' ') with spaced := true, indenting := true }

/-- Puts an indicator after which content may be indented on the same line. -/
def marker (c : Char) (p : Pen) : Pen :=
  { p.space.put [c] with spaced := false }

/-- Puts text that ends the indentation of its line. -/
def word (cs : List Char) (p : Pen) : Pen :=
  { p.put cs with spaced := false, indenting := false }

/-! ## Scalars on paper -/

def lines (column : Nat) (quote : Bool) : Bool → List Char → Pen → Pen
  | _, [], p => p
  | fresh, c :: cs, p =>
      if isBreak c then
        let p := if quote && !fresh && c == '\n' then p.lineBreak '\n' else p
        lines column quote true cs { p.lineBreak c with indenting := true }
      else
        let p := if fresh then p.indentTo column else p
        let text := if quote && c == '\'' then ['\'', '\''] else [c]
        lines column quote false cs { p.put text with indenting := false, spaced := false }

def singleQuoted (column : Nat) (cs : List Char) (p : Pen) : Pen :=
  let p := (p.space.word ['\'']).lines column true false cs
  let p := if cs.getLast?.any isBreak then p.indentTo column else p
  p.word ['\'']

def literal (column : Nat) (cs : List Char) (p : Pen) : Pen :=
  let p := (p.space.word ('|' :: literalHints cs)).lineBreak '\n'
  let p := { p with indenting := true, spaced := true }.lines column false true cs
  { p with spaced := true }

/-- Writes a text in the style it gets; lines of their own begin at `column`. -/
def scalar (column : Nat) (isKey : Bool) (wanted : ScalarStyle) (cs : List Char) (p : Pen) :
    Pen :=
  match chosenStyle isKey wanted cs with
  | .plain => if cs.isEmpty then p.word [] else p.space.word cs
  | .singleQuoted => p.singleQuoted column cs
  | .literal | .folded => p.literal column cs
  | .doubleQuoted => p.space.word ('"' :: cs.flatMap escapedChar ++ ['"'])

/-! ## Tags -/

/-- Characters that a written tag holds as they are. -/
def isTagChar (c : Char) : Bool :=
  isWordChar c || ";/?:@&=+$,.~*'()[]".toList.contains c

def percentText (c : Char) : List Char :=
  (String.singleton c).toUTF8.toList.flatMap fun b => '%' :: hexDigits 2 b.toNat

/-- The text of a tag, which has an exclamation mark in front. -/
def tagText (tag : String) : List Char :=
  '!' :: (Value.tagName tag).flatMap fun c => if isTagChar c then [c] else percentText c

def tag (tag : Option String) (p : Pen) : Pen :=
  match tag with
  | some t => p.space.word (tagText t)
  | none => p

end Pen

/-! ## Values -/

def scalarText? : Value → Option (List Char × ScalarStyle)
  | .null => some ("null".toList, .plain)
  | .bool b => some ((if b then "true" else "false").toList, .plain)
  | .number n => some (n.chars, .plain)
  | .string s => some (s.toList, stringStyle s)
  | _ => none

def byteCount (cs : List Char) : Nat :=
  cs.foldr (fun c n => c.utf8Size + n) 0

/-- The longest key that is written before its colon, in bytes. -/
def maxKeyBytes : Nat := 128

/-- The bytes that a value takes as a key on one line, if it can be one. -/
def keyBytes? (v : Value) : Option Nat :=
  match v with
  | .sequence items => if items.isEmpty then some 0 else none
  | .mapping entries => if entries.isEmpty then some 0 else none
  | .tagged tag inner =>
      (keyBytes? inner).map (· + byteCount (Value.tagName tag) + 1)
  | v =>
      match scalarText? v with
      | some (cs, _) => if cs.any isBreak then none else some (byteCount cs)
      | none => none

def isSimpleKey (v : Value) : Bool :=
  (keyBytes? v).any (· ≤ maxKeyBytes)

/-- Where a value stands: at the root, in a sequence, under a key, or before its colon. -/
inductive Position
  | root
  | item
  | underKey
  | key
  deriving DecidableEq

/-- The column of the parts of a collection that stands at `column`, if it is not the root. -/
def innerColumn : Option Nat → Nat
  | some column => column + 2
  | none => 0

def scalarColumn : Option Nat → Nat
  | some column => column + 2
  | none => 2

namespace Pen

mutual

def value (column : Option Nat) (position : Position) (tag? : Option String) :
    Value → Pen → Pen
  | .tagged t v, p => value column position (some t) v p
  | .sequence xs, p =>
      let p := p.tag tag?
      let inline := (position == .underKey || position == .key) && !p.indenting
      let inner := if inline then column.getD 0 else innerColumn column
      if xs.isEmpty then p.space.word ['[', ']'] else items inner xs p
  | .mapping es, p =>
      let p := p.tag tag?
      if es.isEmpty then p.space.word ['\x7b', '\x7d'] else entries (innerColumn column) es p
  | .null, p => leaf column position .null (p.tag tag?)
  | .bool b, p => leaf column position (.bool b) (p.tag tag?)
  | .number n, p => leaf column position (.number n) (p.tag tag?)
  | .string s, p => leaf column position (.string s) (p.tag tag?)

def items (column : Nat) : List Value → Pen → Pen
  | [], p => p
  | x :: xs, p =>
      let p := (p.indentTo column).marker '-'
      items column xs (value (some column) .item none x p)

/-- Writes the entries of a mapping. A key that does not fit before its colon follows a question
mark. -/
def entries (column : Nat) : Mapping → Pen → Pen
  | [], p => p
  | (k, v) :: es, p =>
      let p := p.indentTo column
      if isSimpleKey k then
        let p := (value (some column) .key none k p).word [':']
        entries column es (value (some column) .underKey none v p)
      else
        let p := value (some column) .underKey none k (p.marker '?')
        let p := (p.indentTo column).marker ':'
        entries column es (value (some column) .underKey none v p)

def leaf (column : Option Nat) (position : Position) (v : Value) (p : Pen) : Pen :=
  match scalarText? v with
  | some (cs, wanted) => p.scalar (scalarColumn column) (position == .key) wanted cs
  | none => p

end

end Pen

def Value.write (v : Value) : String :=
  let p := Pen.value none .root none v {}
  String.ofList (p.indentTo 0).reversed.reverse

end BundleCheck.Yaml
