/-! # Positions in a YAML text -/

namespace BundleCheck.Yaml

/-! ## Character classes -/

def isBreak (c : Char) : Bool :=
  c == '\n' || c == '\r' || c == '\x85' || c == '\u2028' || c == '\u2029'

def isSpace (c : Char) : Bool :=
  c == ' ' || c == '\t'

/-- ASCII letters, digits, the underscore and the hyphen. -/
def isWordChar (c : Char) : Bool :=
  c.isAlphanum || c == '_' || c == '-'

/-- The text ends here, or a space or a line break follows. -/
def endsWord : Option Char → Bool
  | none => true
  | some c => isSpace c || isBreak c

def endsLine : Option Char → Bool
  | none => true
  | some c => isBreak c

/-! ## Cursors -/

/-- What is left of a text, and where that begins. -/
structure Cursor where
  rest : List Char
  index : Nat
  line : Nat
  column : Nat
  deriving Inhabited

namespace Cursor

def start (cs : List Char) : Cursor := ⟨cs, 0, 0, 0⟩

def head? (c : Cursor) : Option Char := c.rest.head?

def at? (c : Cursor) (n : Nat) : Option Char := c.rest[n]?

def looksAt (c : Cursor) (ch : Char) : Bool := c.head? == some ch

/-- Goes on by `n` characters of one line. -/
def skip (n : Nat) (c : Cursor) : Cursor :=
  ⟨c.rest.drop n, c.index + n, c.line, c.column + n⟩

/-- Goes past a line break; a carriage return and a line feed are one. -/
def skipBreak (c : Cursor) : Cursor :=
  match c.rest with
  | '\r' :: '\n' :: rest => ⟨rest, c.index + 2, c.line + 1, 0⟩
  | _ :: rest => ⟨rest, c.index + 1, c.line + 1, 0⟩
  | [] => c

/-- The text that a line break stands for. Only the separators of lines and of paragraphs keep
their own character. -/
def breakText (c : Cursor) : List Char :=
  match c.head? with
  | some ch => if ch == '\u2028' || ch == '\u2029' then [ch] else ['\n']
  | none => []

/-- The characters that satisfy `p`, none of them a line break, and the cursor after them. -/
def span (p : Char → Bool) (c : Cursor) : List Char × Cursor :=
  let taken := c.rest.takeWhile p
  (taken, c.skip taken.length)

def skipWhile (p : Char → Bool) (c : Cursor) : Cursor :=
  (c.span p).2

/-- The rest of the line, without its break. -/
def skipToBreak (c : Cursor) : Cursor :=
  c.skipWhile fun ch => !isBreak ch

/-- A line begins here with the three characters `ch`, and a word ends after them. -/
def looksAtMarker (c : Cursor) (ch : Char) : Bool :=
  c.column == 0 && c.at? 0 == some ch && c.at? 1 == some ch && c.at? 2 == some ch &&
    endsWord (c.at? 3)

def looksAtDocumentMarker (c : Cursor) : Bool :=
  c.looksAtMarker '-' || c.looksAtMarker '.'

end Cursor

end BundleCheck.Yaml
