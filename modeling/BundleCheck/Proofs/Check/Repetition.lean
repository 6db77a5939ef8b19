import BundleCheck.Proofs.Check.Rules

/-! # Repeated relations

The check reports a relation as declared more than once only if the bundle lists two relations
that are the same, in either orientation. -/

namespace BundleCheck

/-- No relation is listed twice, in either orientation. -/
def Relation.Distinct (rs : List Relation) : Prop :=
  rs.Pairwise fun r s => r.sameAs s = false

instance (rs : List Relation) : Decidable (Relation.Distinct rs) :=
  inferInstanceAs (Decidable (rs.Pairwise fun r s => r.sameAs s = false))

namespace Bundle

/-! ## Issues with relations -/

/-- The representatives of what came before and the relations that follow are kept apart. -/
theorem rule_relationIssuesFrom_ne {b : Bundle} {seen rs : List Relation}
    (hdistinct : Relation.Distinct (seen ++ rs)) :
    ∀ e ∈ relationIssuesFrom b seen rs, e.2.rule ≠ .relationDuplicate := by
  induction rs generalizing seen with
  | nil => simp [relationIssuesFrom]
  | cons r rest ih =>
      have hrest : Relation.Distinct (seen ++ rest) :=
        List.Pairwise.sublist ((List.sublist_cons_self r rest).append_left seen) hdistinct
      have hfresh : (seen.any fun known => known.sameAs r) = false := by
        rw [List.any_eq_false]
        intro known hknown
        simpa using (List.pairwise_append.mp hdistinct).2.2 known hknown r (by simp)
      rw [relationIssuesFrom]
      split
      · exact List.forall_mem_cons.mpr ⟨by simp [Issue.rule], ih hrest⟩
      · dsimp only
        rw [hfresh]
        refine List.forall_mem_append.mpr ⟨fun e he => ?_, ih (by simpa using hdistinct)⟩
        obtain ⟨issue, hissue, rfl⟩ := List.mem_map.mp he
        rcases rule_relationIssues hissue with h | h | ⟨h, -⟩
        · simp [h]
        · simp [h]
        · cases h

/-- Relations that are listed once are not reported as repeated, whatever the settings are. -/
theorem rule_check_ne_relationDuplicate {b : Bundle} (hb : Relation.Distinct b.relations)
    (config : Config) : ∀ f ∈ config.check b, f.rule ≠ .relationDuplicate := by
  intro f hf
  rw [Config.check_eq] at hf
  obtain ⟨e, he, rfl⟩ := List.mem_map.mp hf
  have hissue := List.mem_of_mem_filter he
  change e.2.rule ≠ .relationDuplicate
  simp only [issues, List.mem_append] at hissue
  intro hrule
  rcases hissue with (((he | he) | he) | he) | he
  · simpa [hrule] using breakOnly_sectionIssues b e he
  · simpa [hrule] using breakOnly_allMachineIssues b e he
  · simpa [hrule] using breakOnly_allApplicationIssues b e he
  · simpa [hrule] using breakOnly_allPlacementIssues b e he
  · exact rule_relationIssuesFrom_ne (by simpa using hb) e he hrule

end Bundle

end BundleCheck
