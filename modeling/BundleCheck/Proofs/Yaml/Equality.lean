import BundleCheck.Proofs.Except
import BundleCheck.Yaml.Value

/-! # Deciding equality of values

Equality of values is decidable, unlike sameness with regard to the order of entries too. -/

namespace BundleCheck.Yaml.Value

mutual

def beq : Value → Value → Bool
  | .null, .null => true
  | .bool a, .bool b => a == b
  | .number m, .number n => m == n
  | .string s, .string t => s == t
  | .sequence xs, .sequence ys => beqItems xs ys
  | .mapping es, .mapping fs => beqEntries es fs
  | .tagged s v, .tagged t w => s == t && beq v w
  | _, _ => false

def beqItems : List Value → List Value → Bool
  | [], [] => true
  | x :: xs, y :: ys => beq x y && beqItems xs ys
  | _, _ => false

def beqEntries : Mapping → Mapping → Bool
  | [], [] => true
  | (k, v) :: es, (l, w) :: fs => beq k l && beq v w && beqEntries es fs
  | _, _ => false

end

mutual

theorem beq_iff : ∀ v w : Value, beq v w = true ↔ v = w
  | .null, w => by cases w <;> simp [beq]
  | .bool a, w => by cases w <;> simp [beq]
  | .number n, w => by cases w <;> simp [beq]
  | .string s, w => by cases w <;> simp [beq]
  | .sequence xs, w => by
      cases w with
      | sequence ys => simp [beq, beqItems_iff xs ys]
      | _ => simp [beq]
  | .mapping es, w => by
      cases w with
      | mapping fs => simp [beq, beqEntries_iff es fs]
      | _ => simp [beq]
  | .tagged s v, w => by
      cases w with
      | tagged t w => simp [beq, beq_iff v w]
      | _ => simp [beq]

theorem beqItems_iff : ∀ xs ys : List Value, beqItems xs ys = true ↔ xs = ys
  | [], ys => by cases ys <;> simp [beqItems]
  | x :: xs, ys => by
      cases ys with
      | nil => simp [beqItems]
      | cons y ys => simp [beqItems, beq_iff x y, beqItems_iff xs ys]

theorem beqEntries_iff : ∀ es fs : Mapping, beqEntries es fs = true ↔ es = fs
  | [], fs => by cases fs <;> simp [beqEntries]
  | (k, v) :: es, fs => by
      cases fs with
      | nil => simp [beqEntries]
      | cons f fs =>
          simp [beqEntries, beq_iff k f.1, beq_iff v f.2, beqEntries_iff es fs, Prod.ext_iff]

end

instance : DecidableEq Value := fun v w => decidable_of_iff (beq v w = true) (beq_iff v w)

end BundleCheck.Yaml.Value
