import SourceMend.Proofs.Repair.Orbit
import SourceMend.Proofs.Rule.Rewriting

/-!
Passes. The scope map that a pass keeps is always that of the text so far, so a pass applies its
rules one after the other. A measure that every replacement lowers tells that a pass which gives
back its text has replaced nothing.
-/
namespace SourceMend
namespace RuleSet

/-- The scope map that is kept, if any, is that of the text so far. -/
def PassState.Current (ctx : Context) (st : PassState) : Prop :=
  ∀ scope, st.scope = some scope → scope = ScopeMap.scan st.text ctx.dialect

theorem PassState.Current.getD_scope {ctx : Context} {st : PassState} (h : st.Current ctx) :
    st.scope.getD (ScopeMap.scan st.text ctx.dialect) = ScopeMap.scan st.text ctx.dialect := by
  cases hs : st.scope with
  | none => rfl
  | some scope => exact h scope hs

/-- A rule is applied as by itself, with a scan of its own. -/
theorem PassState.Current.applyIn_eq {ctx : Context} {st : PassState} (h : st.Current ctx)
    (r : Rule) : r.applyIn st.text (st.scope.getD (ScopeMap.scan st.text ctx.dialect)) ctx =
      r.apply st.text ctx := by
  rw [h.getD_scope, r.apply_eq_applyIn]

theorem passStep_current {ctx : Context} {st : PassState} (h : st.Current ctx) (r : Rule) :
    (passStep ctx st r).text = (r.apply st.text ctx).text ∧ (passStep ctx st r).Current ctx := by
  simp only [passStep, h.applyIn_eq]
  split
  · next hmatch =>
    rw [Rule.apply_of_not_isMatch (by simpa using hmatch)]
    exact ⟨rfl, h⟩
  · split
    · exact ⟨rfl, fun scope hs => by simp at hs⟩
    · next hc =>
      rw [r.changed_apply] at hc
      refine ⟨?_, fun scope hs => (Option.some.inj hs).symm.trans h.getD_scope⟩
      simpa using Eq.symm (by simpa using hc)

/-- A rule is entered in the tally when it fires. -/
theorem passStep_fires {ctx : Context} {st : PassState} (h : st.Current ctx) (r : Rule) :
    (passStep ctx st r).fires = if 0 < (r.apply st.text ctx).fired then
      st.fires.add r.id (r.apply st.text ctx).fired.toUInt64 else st.fires := by
  simp only [passStep, h.applyIn_eq]
  split
  · next hmatch =>
    rw [Rule.apply_of_not_isMatch (by simpa using hmatch)]
    rfl
  · split <;> rfl

/-- The text after some rules were applied one after the other. -/
def applyAll (ctx : Context) (rules : List Rule) (text : Text) : Text :=
  rules.foldl (fun t r => (r.apply t ctx).text) text

theorem foldl_passStep_text {ctx : Context} (rules : List Rule) {st : PassState}
    (h : st.Current ctx) : (rules.foldl (passStep ctx) st).text = applyAll ctx rules st.text := by
  induction rules generalizing st with
  | nil => rfl
  | cons r rules ih =>
    obtain ⟨htext, hcur⟩ := passStep_current h r
    rw [List.foldl_cons, ih hcur, htext]
    rfl

theorem PassState.current_start (ctx : Context) (text : Text) :
    PassState.Current ctx { text } := fun scope hs => by simp at hs

theorem applyPass_text (s : RuleSet) (text : Text) (ctx : Context) :
    (s.applyPass text ctx).text = applyAll ctx s.fixRules text :=
  foldl_passStep_text s.fixRules (PassState.current_start ctx text)

end RuleSet

/-- Every replacement that the rule makes lowers the measure. -/
def Rule.Lowers (μ : Text → Nat) (ctx : Context) (r : Rule) : Prop :=
  ∀ text, μ (r.apply text ctx).text + (r.apply text ctx).fired ≤ μ text

/-- Every replacement of a rule that fixes lowers the measure. -/
def RuleSet.Lowers (μ : Text → Nat) (ctx : Context) (s : RuleSet) : Prop :=
  ∀ r ∈ s.fixRules, r.Lowers μ ctx

namespace RuleSet

variable {μ : Text → Nat} {ctx : Context}

/-- Rules that lower a measure lower it together, unless none of them fires. -/
theorem applyAll_lowers {rules : List Rule} (h : ∀ r ∈ rules, r.Lowers μ ctx) (text : Text) :
    μ (applyAll ctx rules text) < μ text ∨
      applyAll ctx rules text = text ∧ ∀ r ∈ rules, (r.apply text ctx).fired = 0 := by
  induction rules generalizing text with
  | nil => exact .inr ⟨rfl, by simp⟩
  | cons r rules ih =>
    obtain ⟨hr, hrules⟩ := List.forall_mem_cons.1 h
    have hlow := hr text
    have hall : applyAll ctx (r :: rules) text = applyAll ctx rules (r.apply text ctx).text := rfl
    rw [hall]
    by_cases hf : (r.apply text ctx).fired = 0
    · rw [Rule.apply_text_of_fired_eq_zero hf]
      refine (ih hrules text).imp_right fun ⟨htext, hrest⟩ => ⟨htext, ?_⟩
      exact List.forall_mem_cons.2 ⟨hf, hrest⟩
    · refine .inl ?_
      rcases ih hrules (r.apply text ctx).text with hlt | ⟨heq, -⟩
      · omega
      · rw [heq]
        omega

variable {s : RuleSet} (h : s.Lowers μ ctx)

include h

theorem Lowers.applyPass (text : Text) :
    μ (s.applyPass text ctx).text < μ text ∨
      (s.applyPass text ctx).text = text ∧ ∀ r ∈ s.fixRules, (r.apply text ctx).fired = 0 := by
  rw [applyPass_text]
  exact applyAll_lowers h text

/-- The measure never rises along the orbit. -/
theorem Lowers.orbit_le (text : Text) {i j : Nat} (hij : i ≤ j) :
    μ (s.orbit ctx text j) ≤ μ (s.orbit ctx text i) := by
  induction j, hij using Nat.le_induction with
  | base => exact Nat.le_refl _
  | succ j hij ih =>
    refine Nat.le_trans ?_ ih
    rcases h.applyPass (s.orbit ctx text j) with hlt | ⟨heq, -⟩
    · exact hlt.le
    · exact (congrArg μ heq).le

/-- Until the orbit stands still, the measure falls by one in each pass. -/
theorem Lowers.orbit_add_le (text : Text) (n : Nat)
    (hn : ∀ i < n, s.orbit ctx text (i + 1) ≠ s.orbit ctx text i) :
    μ (s.orbit ctx text n) + n ≤ μ text := by
  induction n with
  | zero => exact Nat.le_refl _
  | succ n ih =>
    have hprev := ih fun i hi => hn i (by omega)
    rcases h.applyPass (s.orbit ctx text n) with hlt | ⟨heq, -⟩
    · have : μ (s.orbit ctx text (n + 1)) < μ (s.orbit ctx text n) := hlt
      omega
    · exact absurd heq (hn n (by omega))

end RuleSet
end SourceMend
