import BundleCheck.Text.Printable

/-! # Quoted text in messages

A text shown inside a message stands between double quotes. Quotes and backslashes are
escaped, and so is every character that would not show as itself. -/

namespace BundleCheck.Text

/-- The code point in hexadecimal between braces. -/
def escapedCode (c : Char) : List Char :=
  '\\' :: 'u' :: '\x7b' :: Nat.toDigits 16 c.toNat ++ ['\x7d']

def quotedChar (c : Char) : List Char :=
  if c == '\x00' then ['\\', '0']
  else if c == '\t' then ['\\', 't']
  else if c == '\r' then ['\\', 'r']
  else if c == '\n' then ['\\', 'n']
  else if c == '"' || c == '\\' then ['\\', c]
  else if isPrintable c then [c]
  else escapedCode c

def quoted (s : String) : String :=
  String.ofList ('"' :: s.toList.flatMap quotedChar ++ ['"'])

end BundleCheck.Text
