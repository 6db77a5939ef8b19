import BundleCheck.Text.Utf8
import Mathlib

/-! # Laws of UTF-8

Bytes are read as a text exactly if they are the bytes of that text. -/

namespace BundleCheck.Text

/-! ## Bytes and code points -/

variable {b : UInt8} {rest bytes : List UInt8} {c : Char} {taken : Nat}

theorem mapM_id_eq_some_iff {α : Type} {items : List (Option α)} {xs : List α} :
    items.mapM id = some xs ↔ items = xs.map some := by
  induction items generalizing xs with
  | nil => cases xs <;> simp
  | cons item items ih =>
      rw [List.mapM_cons]
      cases item with
      | none => cases xs <;> simp
      | some x => cases xs <;> simp [Option.bind_eq_some_iff, ih, and_comm]

theorem ofUtf8?_eq_some_iff_chars {s : String} :
    ofUtf8? bytes = some s ↔ utf8Chars bytes = s.toList.map some := by
  rw [ofUtf8?, Option.map_eq_some_iff]
  simp only [mapM_id_eq_some_iff]
  constructor
  · rintro ⟨cs, hcs, rfl⟩
    rw [hcs, String.toList_ofList]
  · exact fun h => ⟨s.toList, h, String.ofList_toList⟩

/-- A text is not changed where only runs without a character are replaced. -/
theorem ofUtf8Lossy_of_ofUtf8? {s : String} (h : ofUtf8? bytes = some s) :
    ofUtf8Lossy bytes = s := by
  rw [ofUtf8Lossy, ofUtf8?_eq_some_iff_chars.mp h, List.map_map]
  simp

end BundleCheck.Text
