import SourceMend.Proofs.Rule.Rewriting
import SourceMend.RuleSet.Build

/-!
When rule sets can be built: rules with different ids stay as they are, and rules that change none
of their own outputs neither break an example nor make a cycle.
-/
namespace SourceMend

theorem eq_ok_of_bind {ε α β : Type} {x : Except ε α} {f : α → Except ε β} {b : β}
    (h : (x >>= f) = .ok b) : ∃ a, x = .ok a ∧ f a = .ok b := by
  cases x with
  | error e => cases h
  | ok a => exact ⟨a, rfl, h⟩

theorem eq_error_of_bind {ε α β : Type} {x : Except ε α} {f : α → Except ε β} {e : ε}
    (h : (x >>= f) = .error e) : x = .error e ∨ ∃ a, x = .ok a ∧ f a = .error e := by
  cases x with
  | error e' => exact .inl (congrArg _ (Except.error.inj h))
  | ok a => exact .inr ⟨a, rfl, h⟩

theorem eq_ok_of_map {ε α β : Type} {x : Except ε α} {f : α → β} {b : β}
    (h : x.map f = .ok b) : ∃ a, x = .ok a ∧ f a = b := by
  cases x with
  | error e => cases h
  | ok a => exact ⟨a, rfl, Except.ok.inj h⟩

theorem RuleDraft.dedupe_of_nodup {rules kept : List Rule}
    (h : ((kept ++ rules).map (·.id)).Nodup) : dedupe kept rules = .ok (kept ++ rules) := by
  induction rules generalizing kept with
  | nil => simp [dedupe]
  | cons r rest ih =>
    have hnone : kept.find? (·.id = r.id) = none := by
      refine List.find?_eq_none.2 fun s hs => ?_
      rw [List.map_append, List.nodup_append] at h
      have := h.2.2 s.id (List.mem_map_of_mem hs) r.id (by simp)
      simpa using this
    have hkept : (kept ++ [r]) ++ rest = kept ++ r :: rest := by simp
    rw [dedupe, hnone, ← hkept]
    exact ih (by rwa [hkept])

namespace Cycle

theorem round_of_still {origin : String} {t : Trail} {rules : List Rule}
    (h : ∀ r ∈ rules, (r.apply t.text Context.bare).changed = false) :
    round origin t rules = .ok t := by
  induction rules with
  | nil => rfl
  | cons r rest ih =>
    obtain ⟨hr, hrest⟩ := List.forall_mem_cons.1 h
    rw [round]
    simp [hr, ih hrest]

theorem settle_of_still {fixers : List Rule} {origin : String} {t : Trail} (n : Nat)
    (h : ∀ r ∈ fixers, (r.apply t.text Context.bare).changed = false) :
    settle fixers origin (n + 1) t = .ok () := by
  rw [settle, round_of_still h]
  simp

theorem checkSeeds_of_still {fixers : List Rule} {origin : String} {seeds : List Text}
    (h : ∀ seed ∈ seeds, ∀ r ∈ fixers, (r.apply seed Context.bare).changed = false) :
    checkSeeds fixers origin seeds = .ok () := by
  induction seeds with
  | nil => rfl
  | cons seed rest ih =>
    obtain ⟨hseed, hrest⟩ := List.forall_mem_cons.1 h
    have hsettle : settle fixers origin (2 * fixers.length + 2) ⟨seed, [origin]⟩ = .ok () :=
      settle_of_still (2 * fixers.length + 1) hseed
    rw [checkSeeds, hsettle]
    exact ih hrest

/-- Rules make no cycle when none of them changes what another is known to produce. -/
theorem check_of_still {rules : List Rule}
    (h : ∀ s ∈ rules.filter (·.isFix), ∀ seed ∈ seeds s, ∀ r ∈ rules.filter (·.isFix),
      (r.apply seed Context.bare).changed = false) : check rules = .ok () := by
  suffices ho : ∀ origins : List Rule, (∀ s ∈ origins, s ∈ rules.filter (·.isFix)) →
      checkOrigins (rules.filter (·.isFix)) origins = .ok () by
    simp only [check, ho _ fun _ hs => hs]
  intro origins
  induction origins with
  | nil => exact fun _ => rfl
  | cons s rest ih =>
    intro hmem
    obtain ⟨hs, hrest⟩ := List.forall_mem_cons.1 hmem
    rw [checkOrigins, checkSeeds_of_still (h s hs)]
    exact ih hrest

end Cycle

namespace Rule

/-- The examples of a rule come out as promised and stay so. -/
def KeepsExamples (r : Rule) : Prop :=
  ∀ e ∈ r.examples, (r.apply e.input.toList Context.bare).text = e.expected.toList ∧
    (r.apply e.expected.toList Context.bare).changed = false

instance (r : Rule) : Decidable r.KeepsExamples :=
  inferInstanceAs (Decidable (∀ e ∈ r.examples,
    (r.apply e.input.toList Context.bare).text = e.expected.toList ∧
      (r.apply e.expected.toList Context.bare).changed = false))

theorem checkExamples_of_keeps {r : Rule} (h : r.KeepsExamples) : r.checkExamples = .ok () := by
  suffices hfrom : ∀ (es : List Example) (i : Nat), (∀ e ∈ es, e ∈ r.examples) →
      r.checkExamplesFrom i es = .ok () by
    unfold checkExamples
    split
    · exact hfrom _ _ fun _ he => he
    · rfl
  intro es
  induction es with
  | nil => exact fun _ _ => rfl
  | cons e rest ih =>
    intro i hmem
    obtain ⟨he, hrest⟩ := List.forall_mem_cons.1 hmem
    obtain ⟨hout, hstill⟩ := h e he
    have hcheck : r.checkExample i e = .ok () := by
      simp [checkExample, hout, hstill]
    rw [checkExamplesFrom, hcheck]
    exact ih (i + 1) hrest

theorem forM_checkExamples {rules : List Rule} (h : ∀ r ∈ rules, r.isFix = true → r.KeepsExamples) :
    rules.forM checkExamples = .ok () := by
  induction rules with
  | nil => rfl
  | cons r rest ih =>
    obtain ⟨hr, hrest⟩ := List.forall_mem_cons.1 h
    have hcheck : r.checkExamples = .ok () := by
      by_cases hf : r.isFix = true
      · exact checkExamples_of_keeps (hr hf)
      · simp [checkExamples, hf]
    rw [List.forM, hcheck]
    exact ih hrest

end Rule

/-- A draft of different rules, without overrides or names, is built from its active rules. -/
theorem RuleDraft.build_eq {d : RuleDraft} {active : List Rule}
    (hids : (d.rules.map (·.id)).Nodup) (henable : d.enable = []) (hdisable : d.disable = [])
    (hover : d.overrides = []) (hactive : d.rules.filter d.isActive = active)
    (hexamples : ∀ r ∈ active, r.isFix = true → r.KeepsExamples)
    (hcycle : Cycle.check active = .ok ()) : d.build = .ok ⟨d.version.getD 1, active⟩ := by
  have hdedupe : dedupe [] d.rules = .ok d.rules := dedupe_of_nodup hids
  have hknown (rules : List Rule) (context : String) : checkKnown rules [] context = .ok () := rfl
  simp only [build, hdedupe, henable, hdisable, hover, bind, Except.bind, hknown, hactive,
    Rule.forM_checkExamples hexamples, attachAll, hcycle]
  rfl

end SourceMend
