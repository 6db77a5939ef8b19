import BundleCheck.Text.Numeral
import BundleCheck.Yaml.Cursor
import BundleCheck.Yaml.Token

/-! # Scanning anchors, tags and directives

Each function answers its token with the cursor after it, or nothing where the syntax is
broken. -/

namespace BundleCheck.Yaml

/-! ## Anchors and aliases -/

/-- Characters that may follow an anchor's name without a space between. -/
def followsAnchor (c : Char) : Bool :=
  "?:,]\x7d%@\x60".toList.contains c

/-- Reads the name after `&` or `*`. -/
def scanAnchorName (c : Cursor) : Option (String × Cursor) :=
  let (name, c) := (c.skip 1).span isWordChar
  if name.isEmpty || !(endsWord c.head? || c.head?.any followsAnchor) then none
  else some (String.ofList name, c)

/-! ## Tags -/

/-- Characters of a tag other than letters, digits, the underscore and the hyphen. -/
def isTagPunctuation (c : Char) : Bool :=
  ";/?:@&=+$.!~*'()".toList.contains c

/-- Characters that only tags between angle brackets may hold as well. -/
def isListPunctuation (c : Char) : Bool :=
  c == ',' || c == '[' || c == ']'

def percentByte? : List Char → Option (Nat × List Char)
  | '%' :: a :: b :: rest => (Text.digits? 16 [a, b]).map fun n => (n, rest)
  | _ => none

def leadingByte? (b : Nat) : Option (Nat × Nat) :=
  if b < 0x80 then some (b, 0)
  else if 0xC0 ≤ b && b < 0xE0 then some (b % 0x20, 1)
  else if 0xE0 ≤ b && b < 0xF0 then some (b % 0x10, 2)
  else if 0xF0 ≤ b && b < 0xF8 then some (b % 0x08, 3)
  else none

def followingBytes? : Nat → Nat → List Char → Option (Nat × List Char)
  | 0, code, rest => some (code, rest)
  | n + 1, code, rest => do
      let (b, rest) ← percentByte? rest
      if 0x80 ≤ b && b < 0xC0 then followingBytes? n (code * 0x40 + b % 0x40) rest else none

def percentChar? (cs : List Char) : Option (Char × List Char) := do
  let (b, rest) ← percentByte? cs
  let (payload, n) ← leadingByte? b
  let (code, rest) ← followingBytes? n payload rest
  if code.isValidChar then some (Char.ofNat code, rest) else none

def scanTagChars (listed : Bool) : Nat → List Char → Cursor → Option (List Char × Cursor)
  | 0, done, c => some (done, c)
  | fuel + 1, done, c =>
      match c.head? with
      | none => some (done, c)
      | some ch =>
          if ch == '%' then do
            let (value, rest) ← percentChar? c.rest
            scanTagChars listed fuel (done ++ [value]) (c.skip (c.rest.length - rest.length))
          else if isWordChar ch || isTagPunctuation ch || (listed && isListPunctuation ch) then
            scanTagChars listed fuel (done ++ [ch]) (c.skip 1)
          else some (done, c)

/-- Reads a tag's characters after `opening`; one of the two must not be empty. -/
def scanTagText (listed : Bool) (opening : List Char) (c : Cursor) :
    Option (String × Cursor) := do
  let (text, c) ← scanTagChars listed (c.rest.length + 1) [] c
  if opening.isEmpty && text.isEmpty then none
  return (String.ofList (opening.drop 1 ++ text), c)

/-- Reads a tag handle: an exclamation mark, or a word between two of them. Outside of
directives the second mark may be missing. -/
def scanTagHandle (directive : Bool) (c : Cursor) : Option (List Char × Cursor) :=
  if !c.looksAt '!' then none
  else
    let (word, c) := (c.skip 1).span isWordChar
    if c.looksAt '!' then some ('!' :: word ++ ['!'], c.skip 1)
    else if directive && !word.isEmpty then none
    else some ('!' :: word, c)

def scanTagParts (c : Cursor) : Option (String × String × Cursor) :=
  if c.at? 1 == some '<' then do
    let (text, c) ← scanTagText true [] (c.skip 2)
    if c.looksAt '>' then some ("", text, c.skip 1) else none
  else do
    let (handle, c) ← scanTagHandle false c
    if 2 ≤ handle.length && handle.getLast? == some '!' then
      let (text, c) ← scanTagText false [] c
      return (String.ofList handle, text, c)
    else
      let (text, c) ← scanTagText false handle c
      return if text.isEmpty then ("", "!", c) else ("!", text, c)

/-- Reads a tag, after which a word must end. -/
def scanTag (inFlow : Bool) (c : Cursor) : Option (Token × Cursor) := do
  let (handle, suffix, c) ← scanTagParts c
  if endsWord c.head? || (inFlow && c.looksAt ',') then some (.tag handle suffix, c) else none

/-! ## Directives -/

/-- Reads a version number of at most nine digits. -/
def scanVersionNumber (c : Cursor) : Option (Nat × Cursor) := do
  let (digits, c) := c.span Text.isDigit
  if digits.length > 9 then none
  let n ← Text.digits? 10 digits
  return (n, c)

def scanVersion (c : Cursor) : Option (Token × Cursor) := do
  let (major, c) ← scanVersionNumber (c.skipWhile isSpace)
  if !c.looksAt '.' then none
  let (minor, c) ← scanVersionNumber (c.skip 1)
  return (.version major minor, c)

def scanTagDirective (c : Cursor) : Option (Token × Cursor) := do
  let (handle, c) ← scanTagHandle true (c.skipWhile isSpace)
  if !c.head?.any isSpace then none
  let (opening, c) ← scanTagText true [] (c.skipWhile isSpace)
  if endsWord c.head? then some (.tagHandle (String.ofList handle) opening, c) else none

/-- Reads a directive with the rest of its line. Only two names are known. -/
def scanDirective (c : Cursor) : Option (Token × Cursor) := do
  let (name, c) := (c.skip 1).span isWordChar
  if !endsWord c.head? then none
  let (token, c) ←
    if name == "YAML".toList then scanVersion c
    else if name == "TAG".toList then scanTagDirective c
    else none
  let c := c.skipWhile isSpace
  let c := if c.looksAt '#' then c.skipToBreak else c
  if endsLine c.head? then some (token, c.skipBreak) else none

end BundleCheck.Yaml
