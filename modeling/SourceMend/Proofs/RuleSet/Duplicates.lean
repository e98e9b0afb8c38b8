import SourceMend.Proofs.Rule.Sites
import SourceMend.Proofs.RuleSet.Building
import SourceMend.Proofs.Catalog.Patterns

/-!
Folding duplicates. Two rules with one definition match the same places and replace the same
matches. What they put there is the same as well, unless different overrides hold: overrides are no
part of a definition, so a rule that differs in them is folded away as a duplicate.
-/
namespace SourceMend

open Pattern (Match Place)

namespace Rule

/-- The pattern of the rule is what its written form reads as. -/
def Compiled (r : Rule) : Prop := Pattern.parse r.pattern.source = .ok r.pattern

theorem withOverride_eq_ok {r r' : Rule} {o : Override} (h : r.withOverride o = .ok r') :
    r' = { r with overrides := r.overrides ++ [o] } := by
  unfold withOverride at h
  split at h
  · contradiction
  · obtain ⟨-, -, h⟩ := eq_ok_of_bind h
    exact (Except.ok.inj h).symm

theorem compiled_withOverride {r r' : Rule} {o : Override} (h : r.withOverride o = .ok r')
    (hr : r.Compiled) : r'.Compiled := by
  obtain rfl := withOverride_eq_ok h
  exact hr

end Rule

/-- A pattern keeps its written form. -/
theorem Pattern.parse_source {source : String} {p : Pattern} (h : parse source = .ok p) :
    parse p.source = .ok p := by
  obtain ⟨node, -, hp⟩ := eq_ok_of_bind h
  obtain rfl := Except.ok.inj hp
  exact h

namespace RuleSpec

section Compile

variable {P : Rule → Prop} (hkept : ∀ {r r' : Rule} {o : Override}, r.withOverride o = .ok r' →
  P r → P r')

include hkept

theorem attach_induct {specs : List OverrideSpec} {r r' : Rule} (h : attach r specs = .ok r')
    (hr : P r) : P r' := by
  induction specs generalizing r with
  | nil =>
    obtain rfl := Except.ok.inj h
    exact hr
  | cons s rest ih =>
    obtain ⟨o, -, h⟩ := eq_ok_of_bind h
    obtain ⟨next, hnext, h⟩ := eq_ok_of_bind h
    exact ih h (hkept hnext hr)

/-- What overrides keep, and a rule has before it gets any, holds of a compiled rule. -/
theorem compile_induct {s : RuleSpec} {r : Rule} (h : s.compile = .ok r)
    (hbare : ∀ bare : Rule, Pattern.parse s.pattern = .ok bare.pattern →
      bare.replacement = s.replacement → bare.overrides = [] →
      (∀ template ∈ s.replacement, Template.check bare.id bare.pattern template = .ok ()) →
      P bare) : P r := by
  unfold compile at h
  cases hparse : Pattern.parse s.pattern with
  | error cause =>
    rw [hparse] at h
    contradiction
  | ok p =>
    rw [hparse] at h
    cases htemplate : s.replacement with
    | none =>
      rw [htemplate] at h
      exact attach_induct hkept h (hbare _ hparse htemplate.symm rfl (by simp [htemplate]))
    | some template =>
      rw [htemplate] at h
      obtain ⟨⟨⟩, hcheck, h⟩ := eq_ok_of_bind (x := Template.check s.id p template) h
      exact attach_induct hkept h
        (hbare _ hparse htemplate.symm rfl (by simpa [htemplate] using hcheck))

end Compile

/-- Every written rule compiles to one whose pattern is as it was written. -/
theorem compiled_compile {s : RuleSpec} {r : Rule} (h : s.compile = .ok r) : r.Compiled :=
  compile_induct Rule.compiled_withOverride h fun _ hparse _ _ _ => Pattern.parse_source hparse

end RuleSpec

namespace Rule

/-- The override that holds for a match, if any. -/
def overrideFor (r : Rule) (path : String) (m : Match) : Option Override :=
  r.overrides.find? (·.holds r.pattern path m)

/-- The rules have the same pattern, guard and replacement of their own. -/
structure Twin (a b : Rule) : Prop where
  pattern : a.pattern = b.pattern
  guard : a.guard = b.guard
  replacement : a.replacement = b.replacement

theorem sameDefinition_iff {a b : Rule} : a.sameDefinition b = true ↔
    a.id = b.id ∧ a.category = b.category ∧ a.pattern.source = b.pattern.source ∧
      a.replacement = b.replacement ∧ a.guard = b.guard ∧ a.severity = b.severity ∧
      a.enabled = b.enabled := by
  simp [sameDefinition, and_assoc]

/-- A pattern is determined by its written form. -/
theorem twin_of_sameDefinition {a b : Rule} (ha : a.Compiled) (hb : b.Compiled)
    (h : a.sameDefinition b = true) : a.Twin b := by
  obtain ⟨-, -, hsource, hreplacement, hguard, -⟩ := sameDefinition_iff.1 h
  have hpattern : Except.ok a.pattern = (.ok b.pattern : Except Pattern.Error Pattern) := by
    rw [← ha, hsource, hb]
  exact ⟨Except.ok.inj hpattern, hguard, hreplacement⟩

namespace Twin

variable {a b : Rule} (h : a.Twin b) (scope : ScopeMap)

include h

theorem placement_eq (m : Match) : a.placement scope m = b.placement scope m := by
  rw [placement, placement, anchor?, anchor?, h.pattern, h.guard]

theorem admittedAt?_eq (p : Place) : a.admittedAt? scope p = b.admittedAt? scope p := by
  simp only [admittedAt?, h.placement_eq]

theorem places_eq (text : Text) : a.places text = b.places text := by
  rw [places, places, h.pattern]

theorem rewritesFrom_eq (places : List Place) :
    a.rewritesFrom scope places = b.rewritesFrom scope places := by
  fun_induction rewritesFrom a scope places with
  | case1 => rw [rewritesFrom]
  | case2 p rest hp ih => rw [rewritesFrom, ← h.admittedAt?_eq, hp, ih]
  | case3 p rest m hp ih => rw [rewritesFrom, ← h.admittedAt?_eq, hp, ih]

theorem sitesFrom_eq (reported : Nat) (places : List Place) :
    a.sitesFrom scope reported places = b.sitesFrom scope reported places := by
  fun_induction sitesFrom a scope reported places with
  | case1 => rw [sitesFrom]
  | case2 reported p rest hp ih => rw [sitesFrom, hp, ih]
  | case3 reported p rest m hp place site reported' hadm ih =>
    rw [sitesFrom, hp]
    simp only [← h.placement_eq]
    rw [if_pos hadm, ← ih]
  | case4 reported p rest m hp place site reported' hadm hle ih =>
    rw [sitesFrom, hp]
    simp only [← h.placement_eq]
    rw [if_neg hadm, if_pos hle, ← ih]
  | case5 reported p rest m hp place hadm hle ih =>
    rw [sitesFrom, hp]
    simp only [← h.placement_eq]
    rw [if_neg hadm, if_neg hle, ← ih]

theorem replacementFor_eq {own path : String} {m : Match}
    (hover : a.overrideFor path m = b.overrideFor path m) :
    a.replacementFor own path m = b.replacementFor own path m := by
  have htemplate : a.templateFor own path m = b.templateFor own path m :=
    congrArg (fun o => (o.map (·.replacement)).getD own) hover
  rw [replacementFor, replacementFor, htemplate, h.pattern]

theorem rewrites_eq (text : Text) : a.rewrites scope text = b.rewrites scope text := by
  rw [rewrites, rewrites, h.places_eq, h.rewritesFrom_eq]

omit scope

theorem fired_eq (text : Text) (ctx : Context) :
    (a.apply text ctx).fired = (b.apply text ctx).fired := by
  cases ha : a.replacement with
  | none =>
    have hb : b.replacement = none := h.replacement ▸ ha
    simp only [apply_eq_applyIn, applyIn, ha, hb]
  | some own =>
    have hb : b.replacement = some own := h.replacement ▸ ha
    rw [fired_eq_length (by simp [isFix, ha]), fired_eq_length (by simp [isFix, hb]),
      h.rewrites_eq]

/-- The rules make the same of a text if at each match that they replace the same override holds. -/
theorem apply_eq (text : Text) (ctx : Context)
    (hover : ∀ m ∈ a.rewrites (ScopeMap.scan text ctx.dialect) text,
      a.overrideFor ctx.path m = b.overrideFor ctx.path m) :
    a.apply text ctx = b.apply text ctx := by
  have htext : (a.apply text ctx).text = (b.apply text ctx).text := by
    cases ha : a.replacement with
    | none =>
      have hb : b.replacement = none := h.replacement ▸ ha
      simp only [apply_eq_applyIn, applyIn, ha, hb]
    | some own =>
      have hb : b.replacement = some own := h.replacement ▸ ha
      rw [apply_eq_splice ha, apply_eq_splice hb, replacements, replacements, ← h.rewrites_eq]
      refine congrArg (Text.splice 0 text) (List.map_congr_left fun m hm => ?_)
      rw [replacementAt, replacementAt, h.replacementFor_eq (hover m hm)]
  have hchanged : (a.apply text ctx).changed = (b.apply text ctx).changed := by
    rw [changed_apply, changed_apply, htext]
  exact Mended.mk.injEq .. ▸ ⟨htext, h.fired_eq text ctx, hchanged⟩

end Twin
end Rule

namespace RuleDraft

/-- Folding keeps the first rule of each id. -/
theorem find?_dedupe {rules kept out : List Rule} (h : dedupe kept rules = .ok out) (id : String) :
    out.find? (·.id = id) = (kept ++ rules).find? (·.id = id) := by
  induction rules generalizing kept with
  | nil =>
    obtain rfl := Except.ok.inj h
    rw [List.append_nil]
  | cons r rest ih =>
    rw [dedupe] at h
    split at h
    · next old hold =>
      split at h
      · rw [ih h, List.find?_append, List.find?_append]
        by_cases hid : r.id = id
        · rw [← hid, hold, Option.some_or, Option.some_or]
        · rw [List.find?_cons_of_neg (by simpa using hid)]
      · contradiction
    · rw [ih h, List.append_assoc]
      rfl

/-- Every rule has the definition of the rule with its id that is kept. -/
theorem sameDefinition_of_dedupe {rules kept out : List Rule} (h : dedupe kept rules = .ok out)
    {r : Rule} (hr : r ∈ rules) :
    ∃ k, out.find? (·.id = r.id) = some k ∧ k.sameDefinition r = true := by
  induction rules generalizing kept with
  | nil => cases hr
  | cons first rest ih =>
    have hfirst := find?_dedupe h first.id
    rw [dedupe] at h
    split at h
    · next old hold =>
      split at h
      · next hsame =>
        rcases List.mem_cons.1 hr with rfl | hr
        · exact ⟨old, by rw [hfirst, List.find?_append, hold, Option.some_or], hsame⟩
        · exact ih h hr
      · contradiction
    · next hnone =>
      rcases List.mem_cons.1 hr with rfl | hr
      · refine ⟨r, ?_, Rule.sameDefinition_iff.2 (by simp)⟩
        rw [hfirst, List.find?_append, hnone, Option.none_or]
        exact List.find?_cons_of_pos (decide_eq_true rfl)
      · exact ih h hr

/-- A draft is as good as its rules without the duplicates. -/
theorem build_eq_of_dedupe {d : RuleDraft} {rules : List Rule}
    (h : dedupe [] d.rules = dedupe [] rules) : d.build = RuleDraft.build { d with rules } := by
  simp only [build, h]
  rfl

end RuleDraft

namespace Rule

/-- On a text the rules have the same sites and replace the same matches. They make the same of it,
unless at one of these matches different overrides hold. -/
structure Agree (a b : Rule) (text : Text) (ctx : Context) : Prop where
  sites : a.matchSites text (ScopeMap.scan text ctx.dialect) =
    b.matchSites text (ScopeMap.scan text ctx.dialect)
  rewrites : a.rewrites (ScopeMap.scan text ctx.dialect) text =
    b.rewrites (ScopeMap.scan text ctx.dialect) text
  fired : (a.apply text ctx).fired = (b.apply text ctx).fired
  result : a.apply text ctx = b.apply text ctx ∨ a.overrides ≠ b.overrides ∧
    ∃ m ∈ a.rewrites (ScopeMap.scan text ctx.dialect) text,
      a.overrideFor ctx.path m ≠ b.overrideFor ctx.path m

theorem Twin.agree {a b : Rule} (h : a.Twin b) (text : Text) (ctx : Context) :
    a.Agree b text ctx where
  sites := by rw [matchSites, matchSites, h.places_eq, h.sitesFrom_eq]
  rewrites := h.rewrites_eq _ text
  fired := h.fired_eq text ctx
  result := by
    by_cases hover : ∀ m ∈ a.rewrites (ScopeMap.scan text ctx.dialect) text,
        a.overrideFor ctx.path m = b.overrideFor ctx.path m
    · exact .inl (h.apply_eq text ctx hover)
    · obtain ⟨m, hover⟩ := Classical.not_forall.1 hover
      obtain ⟨hm, hne⟩ := Classical.not_imp.1 hover
      refine .inr ⟨fun hsame => hne ?_, m, hm, hne⟩
      rw [overrideFor, overrideFor, hsame, h.pattern]

end Rule

/-- Rules that pass for duplicates match alike, and they make the same of a text unless different
overrides hold. So when a rule set is built, every rule of the draft agrees with the one that is
kept in its place, up to the overrides. -/
theorem RuleDraft.folded_rules_agree (text : Text) (ctx : Context) :
    (∀ a b : Rule, a.Compiled → b.Compiled → a.sameDefinition b = true → a.Agree b text ctx) ∧
    ∀ (d : RuleDraft) (s : RuleSet), d.build = .ok s → (∀ r ∈ d.rules, r.Compiled) →
      ∃ kept, dedupe [] d.rules = .ok kept ∧ ∀ r ∈ d.rules, ∃ k,
        kept.find? (·.id = r.id) = some k ∧ d.rules.find? (·.id = r.id) = some k ∧
        k.Agree r text ctx := by
  have hagree : ∀ a b : Rule, a.Compiled → b.Compiled → a.sameDefinition b = true →
      a.Agree b text ctx :=
    fun a b ha hb hsame => (Rule.twin_of_sameDefinition ha hb hsame).agree text ctx
  refine ⟨hagree, fun d s hs hcompiled => ?_⟩
  obtain ⟨kept, hkept, -⟩ := eq_ok_of_bind hs
  refine ⟨kept, hkept, fun r hr => ?_⟩
  obtain ⟨k, hk, hsame⟩ := sameDefinition_of_dedupe hkept hr
  have hfirst : d.rules.find? (·.id = r.id) = some k := by
    rw [← hk, find?_dedupe hkept, List.nil_append]
  have hmem : k ∈ d.rules := List.mem_of_find?_eq_some hfirst
  exact ⟨k, hk, hfirst, hagree k r (hcompiled k hmem) (hcompiled r hr) hsame⟩

/-- Replaces two letters. -/
def lettersRule : Rule where
  id := "letters"
  category := "demo"
  pattern := { source := "[ab]", node := .one [(97, 98)], groupNames := [none] }
  replacement := some "x"

/-- The same for one of the letters, but not for the other one. -/
def choosyRule : Rule :=
  { lettersRule with overrides := [{ equals := some "b", replacement := "y" }] }

theorem compiled_lettersRule : lettersRule.Compiled := by
  have hnode : Pattern.Parser.node "[ab]".toList = .ok (.one [(97, 98)]) :=
    eq_ok_of_toOption (by decide +kernel)
  rw [Rule.Compiled, lettersRule, Pattern.parse, hnode]
  rfl

theorem compiled_choosyRule : choosyRule.Compiled := compiled_lettersRule

/-- The rule set of the two: the second one is folded away. -/
theorem build_lettersRule_choosyRule :
    RuleDraft.build { rules := [lettersRule, choosyRule] } = .ok ⟨1, [lettersRule]⟩ :=
  calc RuleDraft.build { rules := [lettersRule, choosyRule] }
    _ = RuleDraft.build { rules := [lettersRule] } := RuleDraft.build_eq_of_dedupe rfl
    _ = .ok ⟨1, [lettersRule]⟩ := RuleDraft.build_eq (by decide) rfl rfl rfl rfl
      (by simp [Rule.KeepsExamples, lettersRule]) (eq_ok_of_toOption (by decide +kernel))

theorem folded_rules_agree_letters :
    lettersRule.Compiled ∧ choosyRule.Compiled ∧ lettersRule.sameDefinition choosyRule = true ∧
    RuleDraft.build { rules := [lettersRule, choosyRule] } = .ok ⟨1, [lettersRule]⟩ ∧
    (lettersRule.apply "a".toList .bare).text = "x".toList ∧
    choosyRule.apply "a".toList .bare = lettersRule.apply "a".toList .bare := by
  obtain ⟨-, hbuilt⟩ := RuleDraft.folded_rules_agree "a".toList .bare
  obtain ⟨kept, hkept, hfolded⟩ := hbuilt _ _ build_lettersRule_choosyRule
    (by simp [compiled_lettersRule, compiled_choosyRule])
  obtain rfl : [lettersRule] = kept := Except.ok.inj hkept
  obtain ⟨k, hk, -, hsame⟩ := hfolded choosyRule (by simp)
  obtain rfl : lettersRule = k := Option.some.inj hk
  have hoverride : ∀ m ∈ lettersRule.rewrites (ScopeMap.scan "a".toList .script) "a".toList,
      lettersRule.overrideFor "" m = choosyRule.overrideFor "" m := by
    decide +kernel
  refine ⟨compiled_lettersRule, compiled_choosyRule, by decide, build_lettersRule_choosyRule,
    by decide +kernel, ?_⟩
  rcases hsame.result with heq | ⟨-, m, hm, hne⟩
  · exact heq.symm
  · exact absurd (hoverride m hm) hne

/-- The rule with the override passes for a duplicate of the one without, and a rule set drops it.
On the letter that the override is for the two differ. -/
theorem override_folded_away :
    lettersRule.Compiled ∧ choosyRule.Compiled ∧ lettersRule.sameDefinition choosyRule = true ∧
    RuleDraft.build { rules := [lettersRule, choosyRule] } = .ok ⟨1, [lettersRule]⟩ ∧
    (lettersRule.apply "b".toList .bare).text = "x".toList ∧
    (choosyRule.apply "b".toList .bare).text = "y".toList :=
  ⟨compiled_lettersRule, compiled_choosyRule, by decide, build_lettersRule_choosyRule,
    by decide +kernel, by decide +kernel⟩

end SourceMend
