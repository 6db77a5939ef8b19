import BundleCheck.Proofs.Check.Issues

/-! # Strict checks and ignored rules

What a configuration makes of a bundle is what the default one finds, without the findings of the
rules that a pattern selects, and as errors if the check is strict. No rule's findings depend on
whether those of another rule are recorded. -/

namespace BundleCheck

namespace Config

def asError (f : Finding) : Finding :=
  { f with severity := .error }

def weigh (config : Config) (f : Finding) : Finding :=
  if config.strict then asError f else f

@[simp] theorem rule_weigh (config : Config) (f : Finding) : (config.weigh f).rule = f.rule := by
  unfold weigh
  split <;> rfl

/-- The default settings record every issue with the severity of its rule. -/
theorem check_default (b : Bundle) :
    check {} b = b.issues.map fun e => ⟨e.1, e.2, e.2.rule.severity⟩ := by
  simp [check_eq, ignores, severity]

/-- A configuration filters the findings of the default one, and weighs them. -/
theorem check_eq_filter_map (config : Config) (b : Bundle) :
    config.check b =
      ((check {} b).filter fun f => !config.ignores f.rule).map config.weigh := by
  rw [check_default, List.filter_map, List.map_map, check_eq]
  refine List.map_congr_left fun e _ => ?_
  by_cases hstrict : config.strict = true <;> simp [weigh, asError, severity, hstrict]

/-- The findings of a check are those of the check with the default settings, in order, without
those of the rules that a pattern selects, and as errors if the check is strict. So one more pattern
takes away the findings of the rules that it selects and nothing else, and a check that becomes
strict has the same findings as errors. -/
theorem check_postFilters (config : Config) (b : Bundle) :
    config.check b = ((check {} b).filter fun f =>
        !config.ignored.any fun pattern => selects pattern f.rule).map config.weigh ∧
      (∀ pattern, { config with ignored := config.ignored ++ [pattern] }.check b =
        (config.check b).filter fun f => !selects pattern f.rule) ∧
      { config with strict := true }.check b = (config.check b).map asError := by
  refine ⟨check_eq_filter_map config b, fun pattern => ?_, ?_⟩
  · have hignores : ∀ rule,
        ({ config with ignored := config.ignored ++ [pattern] } : Config).ignores rule =
          (config.ignores rule || selects pattern rule) := by
      intro rule
      simp [ignores]
    rw [check_eq_filter_map, check_eq_filter_map config, List.filter_map, List.filter_filter]
    simp only [hignores, Bool.not_or, Bool.and_comm, Function.comp_def, rule_weigh]
    rfl
  · rw [check_eq_filter_map, check_eq_filter_map config, List.map_map]
    refine List.map_congr_left fun f _ => ?_
    by_cases hstrict : config.strict = true <;> simp [weigh, asError, hstrict]

end Config

end BundleCheck
