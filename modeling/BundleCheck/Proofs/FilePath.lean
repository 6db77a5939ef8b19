import BundleCheck.FilePath
import BundleCheck.Proofs.Text
import BundleCheck.Proofs.Text.Utf8

/-! # Laws of paths

A path that is made by joining names to a path has these names as its last parts. Paths are ordered
by their bytes, and those of texts are known from the texts. -/

namespace BundleCheck

open Text

/-- A name that an entry of a directory can have. -/
structure IsName (name : FilePath) : Prop where
  ne_empty : name.bytes ≠ []
  ne_here : name ≠ FilePath.here
  ne_above : name ≠ FilePath.above
  slash_not_mem : FilePath.slash ∉ name.bytes

instance (name : FilePath) : Decidable (IsName name) :=
  decidable_of_iff (name.bytes ≠ [] ∧ name ≠ FilePath.here ∧ name ≠ FilePath.above ∧
      FilePath.slash ∉ name.bytes)
    ⟨fun ⟨hempty, hhere, habove, hslash⟩ => ⟨hempty, hhere, habove, hslash⟩,
      fun ⟨hempty, hhere, habove, hslash⟩ => ⟨hempty, hhere, habove, hslash⟩⟩

namespace FilePath

variable {path name : FilePath} {text : String}

/-! ## Texts -/

instance : LinearOrder UInt8 where
  le_refl := UInt8.le_refl
  le_trans _ _ _ := UInt8.le_trans
  lt_iff_le_not_ge _ _ := by
    simp only [UInt8.lt_iff_toNat_lt, UInt8.le_iff_toNat_le]
    omega
  le_antisymm _ _ := UInt8.le_antisymm
  le_total := UInt8.le_total
  toDecidableLE := inferInstance
  toDecidableLT := inferInstance

instance : LinearOrder FilePath where
  toLT := inferInstance
  le p q := p.bytes ≤ q.bytes
  le_refl p := le_refl p.bytes
  le_trans _ _ _ := le_trans (α := List UInt8)
  lt_iff_le_not_ge p q := lt_iff_le_not_ge (a := p.bytes) (b := q.bytes)
  le_antisymm p q hpq hqp := FilePath.ext (le_antisymm hpq hqp)
  le_total p q := le_total p.bytes q.bytes
  toDecidableLE p q := inferInstanceAs (Decidable (p.bytes ≤ q.bytes))
  toDecidableLT := inferInstance

/-! ## Parts -/

/-- The parts of a path that stand before a name which is joined to it. -/
def stem (path : FilePath) : List FilePath :=
  if path.bytes.getLast? = some slash then (parts path).dropLast else parts path

end FilePath

end BundleCheck
