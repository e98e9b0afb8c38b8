import SourceMend.Proofs.RuleSet.Pass
import SourceMend.Validate

/-!
Fixed points. When every replacement of a rule set lowers a measure, its repairs do not go round
in circles, they reach a fixed point before the measure is used up, and at the fixed point no rule
fires any more. A text on which no rule fires has no failed fix among its findings.
-/
namespace SourceMend

/-- The findings are made of the match sites of all rules. -/
theorem RuleSet.validate_eq (s : RuleSet) (path : String) (text : Text) (d : Dialect) :
    s.validate path text d = (s.rules.flatMap fun r =>
      (r.matchSites text (ScopeMap.scan text d)).filterMap (siteFinding? path text r)).mergeSort
        Finding.notAfter := by
  unfold validate
  refine congrArg (List.mergeSort · Finding.notAfter) (List.flatMap_congr fun r _ => ?_)
  split
  · rfl
  · next h => rw [Rule.matchSites_of_not_isMatch _ (by simpa using h), List.filterMap_nil]

/-- Where no rule fires, no fix has failed. -/
theorem RuleSet.validate_kind_ne_fixFailed {s : RuleSet} {ctx : Context} {text : Text}
    (h : ∀ r ∈ s.fixRules, (r.apply text ctx).fired = 0) {path : String} {f : Finding}
    (hf : f ∈ s.validate path text ctx.dialect) : f.kind ≠ .fixFailed := by
  rw [validate_eq] at hf
  obtain ⟨r, hr, hsite⟩ := List.mem_flatMap.1 (List.mem_mergeSort.1 hf)
  obtain ⟨site, hmem, hfound⟩ := List.mem_filterMap.1 hsite
  obtain ⟨⟨cls, severity⟩, hc, rfl⟩ := Option.map_eq_some_iff.1 hfound
  intro hkind
  obtain rfl : cls = .fixFailed := hkind
  -- Only an admitted site of a rule that fixes is classified as a failed fix.
  obtain ⟨hadm, hfix⟩ : site.placement = .admitted ∧ r.isFix = true := by
    unfold Rule.classify at hc
    split at hc <;> simp_all
  have hfixes : r ∈ s.fixRules := List.mem_filter.2 ⟨hr, hfix⟩
  exact Rule.not_admitted_of_fired_eq_zero hfix (h r hfixes) hmem hadm

namespace RuleSet.Lowers

variable {μ : Text → Nat} {ctx : Context} {s : RuleSet} (h : s.Lowers μ ctx) {text : Text}
  {maxPasses : UInt32}
  (hd : s.Distinguishes ctx text (s.repair maxPasses text ctx).passesExecuted.toNat)

include h hd

theorem not_oscillating (period : UInt32) :
    (s.repair maxPasses text ctx).convergence ≠ .oscillating period := by
  have hend := s.repair_ending maxPasses text ctx
  have hbudget := (passBudget maxPasses).toNat_lt
  revert hend hd
  generalize s.repair maxPasses text ctx = out
  intro hd hend hosc
  cases hend with
  | exhausted => simp at hosc
  | converged => simp at hosc
  | @oscillating n j within fresh earlier same =>
    simp only [toNat_toUInt32 (show n + 1 < 2 ^ 32 by omega)] at hd
    have hsame : s.orbit ctx text (n + 1) = s.orbit ctx text j :=
      hd (n + 1) le_rfl j (by omega) same
    have hle := h.orbit_le text (show j ≤ n by omega)
    rcases h.applyPass (s.orbit ctx text n) with hlt | ⟨heq, -⟩
    · have : μ (s.orbit ctx text (n + 1)) < μ (s.orbit ctx text n) := hlt
      rw [hsame] at this
      omega
    · have hold : s.orbit ctx text n = s.orbit ctx text j := heq.symm.trans hsame
      have := eq_of_not_returns fresh le_rfl earlier.le (congrArg Digest.ofText hold)
      omega

theorem converged (hlt : μ text < maxPasses.toNat) :
    (s.repair maxPasses text ctx).convergence = .converged := by
  have hend := s.repair_ending maxPasses text ctx
  have hnot := h.not_oscillating hd
  have hbudget := toNat_passBudget maxPasses
  have hsize := maxPasses.toNat_lt
  revert hend hd hnot
  generalize s.repair maxPasses text ctx = out
  intro hd hend hnot
  cases hend with
  | exhausted fresh =>
    have hmoves (i : Nat) (hi : i < (passBudget maxPasses).toNat) :
        s.orbit ctx text (i + 1) ≠ s.orbit ctx text i :=
      fun he => fresh (i + 1) (by omega) ⟨i, by omega, congrArg Digest.ofText he⟩
    have := h.orbit_add_le text _ hmoves
    omega
  | converged => rfl
  | oscillating => exact absurd rfl (hnot _)

/-- At the fixed point that a repair has reached no rule fires. -/
theorem fired_eq_zero (hc : (s.repair maxPasses text ctx).convergence = .converged) :
    ∀ r ∈ s.fixRules, (r.apply (s.repair maxPasses text ctx).content ctx).fired = 0 := by
  have hend := s.repair_ending maxPasses text ctx
  have hbudget := (passBudget maxPasses).toNat_lt
  revert hend hd hc
  generalize s.repair maxPasses text ctx = out
  intro hd hc hend
  cases hend with
  | exhausted => simp at hc
  | @converged n within fresh same =>
    simp only [toNat_toUInt32 (show n + 1 < 2 ^ 32 by omega)] at hd
    have hsame : s.orbit ctx text (n + 1) = s.orbit ctx text n :=
      hd (n + 1) le_rfl n (by omega) same
    rcases h.applyPass (s.orbit ctx text n) with hlt | ⟨-, hfired⟩
    · exact absurd (congrArg μ hsame) hlt.ne
    · exact hfired
  | oscillating => simp at hc

end RuleSet.Lowers
end SourceMend
