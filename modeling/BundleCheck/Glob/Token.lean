import BundleCheck.Text.Numeral
import BundleCheck.Text.Split

/-! # Tokens of glob patterns

A pattern is read in two steps: its text is cut into lexemes, and brackets among the lexemes are
matched to give nested tokens. -/

namespace BundleCheck.Glob

open Text

inductive Token
  | literal (c : Char) (ignoresCase : Bool)
  | one
  | many
  | tree (rooted : Bool)
  | separator
  | oneOf (negated : Bool) (ranges : List (Char × Char))
  | alternatives (branches : List (List Token))
  | repeated (body : List Token) (least : Nat) (most : Option Nat)

/-! ## Lexemes -/

/-- A token without parts, or a bracket around parts. -/
inductive Lexeme
  | token (t : Token)
  | openAlternatives
  | comma
  | closeAlternatives
  | openRepeated
  | closeRepeated (least : Nat) (most : Option Nat)

/-- What the text so far means for the next lexeme. -/
structure Mode where
  ignoresCase : Bool := false
  atStart : Bool := true

def isSpecial (c : Char) : Bool :=
  c == '?' || c == '*' || c == '$' || c == ':' || c == '<' || c == '>' || c == '(' || c == ')' ||
  c == '[' || c == ']' || c == '\x7b' || c == '\x7d' || c == ',' || c == '\\'

/-- Reads the flags in one pair of brackets: `i` ignores case from here on, `-i` does not. -/
def readFlags : Bool → List Char → Option (Bool × List Char)
  | _, 'i' :: ')' :: cs => some (true, cs)
  | _, '-' :: 'i' :: ')' :: cs => some (false, cs)
  | _, 'i' :: cs => readFlags true cs
  | _, '-' :: 'i' :: cs => readFlags false cs
  | _, _ => none

/-- Skips flags, and answers whether letters match in either case after them. -/
def skipFlags (ignoresCase : Bool) (cs : List Char) : Bool × List Char :=
  match cs with
  | '(' :: '?' :: body =>
      match readFlags ignoresCase body with
      | some (flag, rest) =>
          if rest.length < body.length then skipFlags flag rest else (ignoresCase, cs)
      | none => (ignoresCase, cs)
  | _ => (ignoresCase, cs)
termination_by cs.length

/-! ### Classes -/

/-- The characters of a class up to its closing bracket; a hyphen between them is `none`. -/
def classItems : List Char → Option (List (Option Char) × List Char)
  | [] => none
  | ']' :: cs => some ([], cs)
  | '[' :: _ => none
  | '-' :: cs => (classItems cs).map fun r => (none :: r.1, r.2)
  | '\\' :: c :: cs =>
      if c == '[' || c == ']' || c == '-' || c == '\\' then
        (classItems cs).map fun r => (some c :: r.1, r.2)
      else none
  | c :: cs => (classItems cs).map fun r => (some c :: r.1, r.2)

/-- The ranges of a class; a single character is a range too. -/
def classRanges : List (Option Char) → Option (List (Char × Char))
  | [] => some []
  | some a :: none :: some b :: items => (classRanges items).map ((a, b) :: ·)
  | some a :: items => (classRanges items).map ((a, a) :: ·)
  | none :: _ => none

/-- Reads a class after its opening bracket. It must not be empty. -/
def readClass (cs : List Char) : Option (Token × List Char) :=
  let (negated, body) :=
    match cs with
    | '!' :: rest => (true, rest)
    | _ => (false, cs)
  match classItems body with
  | some (items, rest) =>
      match classRanges items with
      | some [] => none
      | some ranges => some (.oneOf negated ranges, rest)
      | none => none
  | none => none

/-! ### Bounds -/

/-- The number at the beginning of a text, if it has 64 bits at most. -/
def leadingNumber (cs : List Char) : Option (Nat × List Char) :=
  match natural? 64 (cs.takeWhile isDigit) with
  | some n => some (n, cs.dropWhile isDigit)
  | none => none

/-- Reads `<n>,<m>`, `<n>,` or `<n>` before the end of a repetition; nothing is one or more. -/
def readRange (cs : List Char) : Nat × Option Nat × List Char :=
  match leadingNumber cs with
  | none => (1, none, cs)
  | some (least, ',' :: rest) =>
      match leadingNumber rest with
      | some (most, rest) => (least, some most, rest)
      | none => (least, none, rest)
  | some (least, rest) => (least, some least, rest)

/-- Reads the end of a repetition; without bounds it is any number of times. -/
def readRepeatedEnd (cs : List Char) : Option (Lexeme × List Char) :=
  let (least, most, rest) :=
    match cs with
    | ':' :: rest => readRange rest
    | _ => (0, none, cs)
  match rest with
  | '>' :: rest => some (.closeRepeated least most, rest)
  | _ => none

/-! ### Wildcards -/

/-- What may follow a tree wildcard, apart from a slash. -/
def endsSequence : List Char → Bool
  | [] => true
  | c :: _ => c == ',' || c == '\x7d' || c == ':' || c == '>'

/-- Reads a tree wildcard `**`, which is all of a path component. Slashes around it belong to
it. -/
def readTree (mode : Mode) (cs : List Char) : Option (Mode × Token × List Char) :=
  let (rooted, ignoresCase, stars) :=
    match cs with
    | '/' :: rest => (true, skipFlags mode.ignoresCase rest)
    | _ => (false, mode.ignoresCase, cs)
  match rooted || mode.atStart, stars with
  | true, '*' :: '*' :: rest =>
      match skipFlags ignoresCase rest with
      | (ignoresCase, '/' :: rest) => some (⟨ignoresCase, false⟩, .tree rooted, rest)
      | _ => if endsSequence rest then some (⟨ignoresCase, false⟩, .tree rooted, rest) else none
  | _, _ => none

def noManyAhead (ignoresCase : Bool) (cs : List Char) : Bool :=
  match (skipFlags ignoresCase cs).2 with
  | '*' :: _ => false
  | '$' :: _ => false
  | _ => true

/-! ### Cutting -/

def readPlain (ignoresCase : Bool) : List Char → Option (Lexeme × List Char)
  | [] => none
  | '?' :: cs => some (.token .one, cs)
  | '*' :: cs => if noManyAhead ignoresCase cs then some (.token .many, cs) else none
  | '$' :: cs => if noManyAhead ignoresCase cs then some (.token .many, cs) else none
  | '/' :: cs => some (.token .separator, cs)
  | '[' :: cs => (readClass cs).map fun r => (.token r.1, r.2)
  | '\x7b' :: cs => some (.openAlternatives, cs)
  | ',' :: cs => some (.comma, cs)
  | '\x7d' :: cs => some (.closeAlternatives, cs)
  | '<' :: cs => some (.openRepeated, cs)
  | ':' :: cs => readRepeatedEnd (':' :: cs)
  | '>' :: cs => readRepeatedEnd ('>' :: cs)
  | '\\' :: c :: cs => if isSpecial c then some (.token (.literal c ignoresCase), cs) else none
  | c :: cs => if isSpecial c then none else some (.token (.literal c ignoresCase), cs)

/-- A pattern begins anew after the lexeme. -/
def Lexeme.opens : Lexeme → Bool
  | .openAlternatives => true
  | .comma => true
  | .openRepeated => true
  | _ => false

/-- The lexeme does not begin a token. -/
def Lexeme.closes : Lexeme → Bool
  | .comma => true
  | .closeAlternatives => true
  | .closeRepeated .. => true
  | _ => false

/-- Reads one lexeme. Flags stand before tokens only. -/
def readLexeme (mode : Mode) (cs : List Char) : Option (Mode × Lexeme × List Char) :=
  let (ignoresCase, plain) := skipFlags mode.ignoresCase cs
  match readTree { mode with ignoresCase } plain, readPlain ignoresCase plain with
  | some (mode, t, rest), _ => some (mode, .token t, rest)
  | none, some (lexeme, rest) =>
      if lexeme.closes && plain.length < cs.length then none
      else some (⟨ignoresCase, lexeme.opens⟩, lexeme, rest)
  | none, none => none

def lexemes (mode : Mode) (cs : List Char) : Option (List Lexeme) :=
  if cs.isEmpty then some []
  else
    match readLexeme mode cs with
    | some (mode, lexeme, rest) =>
        if rest.length < cs.length then (lexemes mode rest).map (lexeme :: ·) else none
    | none => none
termination_by cs.length

/-! ## Nesting -/

/-- An open bracket: the tokens before it in reverse, and the branches before the current one. -/
inductive Frame
  | alternatives (before : List Token) (branches : List (List Token))
  | repeated (before : List Token)

/-- The open brackets, innermost first, and the tokens after them in reverse. -/
structure Nesting where
  frames : List Frame := []
  current : List Token := []

/-- Adds a lexeme. What stands between brackets and commas must not be empty. -/
def Nesting.add (nesting : Nesting) (lexeme : Lexeme) : Option Nesting :=
  let { frames, current } := nesting
  match lexeme, frames, current with
  | .token t, _, _ => some { frames, current := t :: current }
  | .openAlternatives, _, _ => some ⟨.alternatives current [] :: frames, []⟩
  | .openRepeated, _, _ => some ⟨.repeated current :: frames, []⟩
  | _, _, [] => none
  | .comma, .alternatives before branches :: frames, _ =>
      some ⟨.alternatives before (current.reverse :: branches) :: frames, []⟩
  | .closeAlternatives, .alternatives before branches :: frames, _ =>
      some ⟨frames, .alternatives (current.reverse :: branches).reverse :: before⟩
  | .closeRepeated least most, .repeated before :: frames, _ =>
      some ⟨frames, .repeated current.reverse least most :: before⟩
  | _, _, _ => none

/-- The tokens of a pattern whose brackets are all closed. -/
def Nesting.tokens? (nesting : Nesting) : Option (List Token) :=
  if nesting.frames.isEmpty then some nesting.current.reverse else none

def readTokens (cs : List Char) : Option (List Token) := do
  let cut ← lexemes {} cs
  let nesting ← cut.foldlM Nesting.add {}
  nesting.tokens?

end BundleCheck.Glob
