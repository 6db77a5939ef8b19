import BundleCheck.Bundle.Decode
import BundleCheck.Bundle.Encode
import BundleCheck.Proofs.Except

/-! # Relations

Two relations are the same if their endpoints are, in either orientation. -/

namespace BundleCheck

open Yaml

/-! ## The same relation -/

namespace Relation

theorem sameAs_iff {r s : Relation} :
    r.sameAs s = true ↔
      (Text.trimmed r.left = Text.trimmed s.left ∧ Text.trimmed r.right = Text.trimmed s.right) ∨
        (Text.trimmed r.left = Text.trimmed s.right ∧
          Text.trimmed r.right = Text.trimmed s.left) := by
  simp [sameAs]

theorem sameAs_refl (r : Relation) : r.sameAs r = true :=
  sameAs_iff.mpr (.inl ⟨rfl, rfl⟩)

theorem sameAs_symm {r s : Relation} (h : r.sameAs s = true) : s.sameAs r = true := by
  rw [sameAs_iff] at h ⊢
  rcases h with ⟨hl, hr⟩ | ⟨hl, hr⟩
  · exact .inl ⟨hl.symm, hr.symm⟩
  · exact .inr ⟨hr.symm, hl.symm⟩

theorem sameAs_trans {r s t : Relation} (hrs : r.sameAs s = true) (hst : s.sameAs t = true) :
    r.sameAs t = true := by
  rw [sameAs_iff] at hrs hst ⊢
  rcases hrs with ⟨hl, hr⟩ | ⟨hl, hr⟩ <;> rcases hst with ⟨hl', hr'⟩ | ⟨hl', hr'⟩
  · exact .inl ⟨hl.trans hl', hr.trans hr'⟩
  · exact .inr ⟨hl.trans hl', hr.trans hr'⟩
  · exact .inr ⟨hl.trans hr', hr.trans hl'⟩
  · exact .inl ⟨hl.trans hr', hr.trans hl'⟩

end Relation

theorem applicationOf_congr {s t : String} (h : Text.trimmed s = Text.trimmed t) :
    applicationOf s = applicationOf t := by
  have hchars : Text.trim s.toList = Text.trim t.toList := by
    simpa [Text.trimmed] using congrArg String.toList h
  rw [applicationOf, applicationOf, hchars]

/-- A relation and the same relation have the same applications. -/
theorem Relation.involves_congr {r s : Relation} (h : r.sameAs s = true) (application : String) :
    r.involves application = s.involves application := by
  rw [involves, involves, applications, applications]
  rcases sameAs_iff.mp h with ⟨hl, hr⟩ | ⟨hl, hr⟩
  · rw [applicationOf_congr hl, applicationOf_congr hr]
  · rw [applicationOf_congr hl, applicationOf_congr hr, Bool.or_comm]

/-! ## Writing and reading -/

/-- A sequence is read as its items, and null as no items. -/
theorem items_eq_ok_iff {expected : String} {v : Value} {items : List Value} :
    Source.items expected v = Except.ok (ε := Mismatch) items ↔
      v.untagged = .sequence items ∨ v.untagged = .null ∧ items = [] := by
  simp only [Source.items]
  cases v.untagged with
  | sequence parts => simp
  | null => simp [eq_comm]
  | _ => simp [Value.unexpected]

/-- Relations that are written are read back. -/
theorem readRelations_encode (rs : List Relation) :
    (readRelations (Value.sequence (rs.map Relation.encode)) : Except Mismatch _) = .ok rs :=
  mapM_ok fun _ _ => rfl

end BundleCheck
