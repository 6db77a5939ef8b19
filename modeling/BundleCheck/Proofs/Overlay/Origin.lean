import BundleCheck.Proofs.Overlay.Sections

/-! # The name of an overlay

The name of an overlay goes into the reports of failures, and into nothing else. -/

namespace BundleCheck.Overlay

open Yaml

variable (origin origin' : String)

theorem toOption_mergeApplication (base : Mapping) (e : Value × Value) :
    (mergeApplication origin base e).toOption = (mergeApplication origin' base e).toOption := by
  unfold mergeApplication
  cases e.1.text? with
  | none => rfl
  | some name => cases e.2 <;> rfl

theorem toOption_mergeEach (base : Mapping) (removed : List String) (new : Mapping) :
    (mergeEach origin base removed new).toOption =
      (mergeEach origin' base removed new).toOption := by
  induction new generalizing base removed with
  | nil => rfl
  | cons e es ih =>
      rw [mergeEach, mergeEach, toOption_bind, toOption_bind,
        toOption_mergeApplication origin origin']
      exact Option.bind_congr fun r _ => ih r.1 _

theorem toOption_mergeApplications (key : String) (root : Mapping) (v : Value) :
    (mergeApplications origin key root v).toOption =
      (mergeApplications origin' key root v).toOption := by
  unfold mergeApplications
  cases v with
  | mapping new =>
      dsimp only
      split
      · rfl
      · rw [toOption_bind, toOption_bind, toOption_mergeEach origin origin']
  | _ => rfl

theorem toOption_mergeMachines (root : Mapping) (v : Value) :
    (mergeMachines origin root v).toOption = (mergeMachines origin' root v).toOption := by
  unfold mergeMachines
  cases v with
  | mapping new =>
      dsimp only
      split <;> rfl
  | _ => rfl

theorem toOption_baseRelations (root : Mapping) :
    (baseRelations origin root).toOption = (baseRelations origin' root).toOption := by
  unfold baseRelations
  split
  · split
    · rfl
    · rw [toOption_mapError, toOption_mapError]
  · rfl

theorem toOption_appendRelations (root : Mapping) (v : Value) :
    (appendRelations origin root v).toOption = (appendRelations origin' root v).toOption := by
  unfold appendRelations
  split
  · rfl
  · simp only [toOption_bind, toOption_mapError, toOption_baseRelations origin origin']

theorem toOption_applySection (key : String) (root : Mapping) (e : Value × Value) :
    (applySection origin key root e).toOption = (applySection origin' key root e).toOption := by
  rw [applySection_eq, applySection_eq]
  split
  · rfl
  · rw [toOption_bind, toOption_bind, toOption_mergeApplications origin origin']
  · exact toOption_mergeMachines origin origin' root e.2
  · exact toOption_appendRelations origin origin' root e.2
  · rfl

/-- Under any name an overlay makes the same of a document. -/
theorem toOption_apply (base overlay : Value) :
    (apply origin base overlay).toOption = (apply origin' base overlay).toOption := by
  unfold apply
  cases overlay with
  | mapping sections =>
      dsimp only
      split
      · rfl
      next root _ =>
        have hrun : (sections.foldlM (applySection origin (applicationKey root)) root).toOption =
            (sections.foldlM (applySection origin' (applicationKey root)) root).toOption :=
          toOption_foldlM_congr (fun m e _ => toOption_applySection origin origin' _ m e) root
        rw [toOption_bind, toOption_bind, hrun]
  | _ => rfl

end BundleCheck.Overlay
