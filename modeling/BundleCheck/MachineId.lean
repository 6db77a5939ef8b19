import BundleCheck.Text.Blank
import BundleCheck.Text.Numeral

/-! # Machine identifiers

Any text can name a machine. Identifiers that are numbers come first, in numeric order, so
that `10` follows `9`. -/

namespace BundleCheck

open Text

/-- A machine identifier, which has no blanks around it. -/
structure MachineId where
  text : String
  trimmed_text : trimmed text = text
  deriving DecidableEq

namespace MachineId

@[ext] theorem ext {a b : MachineId} (h : a.text = b.text) : a = b := by
  cases a
  cases b
  simpa using h

def ofText (s : String) : MachineId :=
  ⟨trimmed s, trimmed_trimmed s⟩

instance : Inhabited MachineId := ⟨ofText ""⟩

/-- The number written by an identifier, if it is one of 64 bits. -/
def number? (id : MachineId) : Option Nat :=
  natural? 64 id.text.toList

/-- Numbers before other texts, then by number, then by text. -/
instance : Ord MachineId where
  compare :=
    compareLex (compareOn fun id => id.number?.isNone)
      (compareLex (compareOn fun id => id.number?.getD 0) (compareOn fun id => id.text))

instance : Std.TransOrd MachineId :=
  inferInstanceAs (Std.TransCmp (compareLex (compareOn fun id : MachineId => id.number?.isNone)
    (compareLex (compareOn fun id => id.number?.getD 0) (compareOn fun id => id.text))))

end MachineId

end BundleCheck
