import BundleCheck.Proofs.Except
import BundleCheck.Proofs.Overlay.Fields

/-! # Merging applications

Applications are merged part by part. A merge is refused exactly for an application that is
neither null nor a mapping, or that is new and has no charm. -/

namespace BundleCheck.Overlay

open Yaml

/-! ## One application -/

/-- A section takes an entry of an overlay: a null removes an application, and a mapping changes
one that is there as a mapping, or brings a charm. -/
def AcceptsApplication (base : Mapping) (e : Value × Value) : Prop :=
  e.1.text?.isSome ∧ (e.2 = .null ∨ ∃ fields, e.2 = .mapping fields ∧
    ((∃ existing, base.get? e.1 = some (.mapping existing)) ∨
      Mapping.containsName fields "charm" = true))

def removedName? (e : Value × Value) : Option String :=
  match e.2 with
  | .null => e.1.text?
  | _ => none

/-- An application that is accepted is merged as any part is. -/
theorem mergeApplication_eq_ok_iff {origin : String} {base : Mapping} {e : Value × Value}
    (he : e.2.DistinctKeys) {r : Mapping × Option String} :
    mergeApplication origin base e = .ok r ↔
      AcceptsApplication base e ∧ r = (mergePart base e, removedName? e) := by
  obtain ⟨k, v⟩ := e
  unfold mergeApplication AcceptsApplication removedName?
  cases hname : k.text? with
  | none => simp
  | some name =>
      cases v with
      | null =>
          simp only [mergePart_null, Except.ok.injEq, Option.isSome_some, true_or, and_self,
            true_and]
          exact eq_comm
      | mapping fields =>
          have hfields : mergeFields [] fields = fields :=
            mergeFields_nil (Value.distinctKeys_mapping_iff.mp he)
          simp only [mergePart_mapping, Option.isSome_some, reduceCtorEq, false_or, true_and,
            Value.mapping.injEq, exists_eq_left']
          split
          next existing hget =>
            simp only [hget, fieldsOf, Except.ok.injEq, Option.some.injEq, Value.mapping.injEq,
              exists_eq', true_or, true_and]
            exact eq_comm
          next hget =>
            have hnone : ¬ ∃ existing, base.get? k = some (.mapping existing) :=
              not_exists.mpr fun existing h => hget existing h
            rw [fieldsOf_eq_nil fun m h => hget m h, hfields]
            by_cases hcharm : Mapping.containsName fields "charm" = true
            · simp only [hcharm, hnone, if_true, Except.ok.injEq, false_or, true_and]
              exact eq_comm
            · simp [hcharm, hnone]
      | _ => simp

/-! ## All applications -/

/-- Whether an entry is accepted depends on what its key holds. -/
theorem acceptsApplication_congr {base base' : Mapping} {e : Value × Value}
    (h : base.get? e.1 = base'.get? e.1) :
    AcceptsApplication base e ↔ AcceptsApplication base' e := by
  rw [AcceptsApplication, AcceptsApplication, h]

/-- Applications that are accepted one by one are accepted together. -/
theorem mergeEach_eq_ok_iff {origin : String} {base new : Mapping} {removed : List String}
    (hbase : base.DistinctKeys) (hnew : new.DistinctKeys) {r : Mapping × List String} :
    mergeEach origin base removed new = .ok r ↔
      (∀ e ∈ new, AcceptsApplication base e) ∧
        r = (new.foldl mergePart base, removed ++ new.filterMap removedName?) := by
  induction new generalizing base removed with
  | nil =>
      rw [mergeEach, Except.ok.injEq]
      simpa using eq_comm
  | cons e es ih =>
      obtain ⟨he, hhead, hes⟩ := Mapping.distinctKeys_cons_iff.mp hnew
      have hnext := keyLocal_mergePart.distinctKeys hbase he
      have hcongr : ∀ f ∈ es,
          AcceptsApplication (mergePart base e) f ↔ AcceptsApplication base f := by
        intro f hf
        refine acceptsApplication_congr ?_
        rw [keyLocal_mergePart.get? hbase he (hes.parts f hf).1, hhead f hf]
        simp
      have hremoved : (removed ++ (removedName? e).toList) ++ es.filterMap removedName? =
          removed ++ (e :: es).filterMap removedName? := by
        cases h : removedName? e <;> simp [h]
      rw [mergeEach, bind_eq_ok_iff]
      simp only [mergeApplication_eq_ok_iff he.2]
      constructor
      · rintro ⟨_, ⟨haccepts, rfl⟩, h⟩
        obtain ⟨hall, rfl⟩ := (ih hnext hes).mp h
        refine ⟨List.forall_mem_cons.mpr ⟨haccepts, fun f hf => (hcongr f hf).mp (hall f hf)⟩, ?_⟩
        rw [hremoved, List.foldl_cons]
      · rintro ⟨hall, rfl⟩
        obtain ⟨haccepts, hrest⟩ := List.forall_mem_cons.mp hall
        refine ⟨_, ⟨haccepts, rfl⟩, ?_⟩
        refine (ih hnext hes).mpr ⟨fun f hf => (hcongr f hf).mpr (hrest f hf), ?_⟩
        rw [hremoved, List.foldl_cons]

end BundleCheck.Overlay
