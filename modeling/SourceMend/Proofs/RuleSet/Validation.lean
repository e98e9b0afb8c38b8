import SourceMend.Proofs.Repair.FixedPoint
import SourceMend.Proofs.Rule.Sites
import SourceMend.Proofs.RuleSet.Selection
import SourceMend.Proofs.Scope.Lookup

/-!
What validation says of repair. The failed fixes that are found for a rule are as many as the
replacements that the rule would make, and none is found exactly when a pass replaces nothing. A
match in code starts inside a site; validation is silent on it only when the match lies outside the
frames of its rule and that site touches a literal.
-/
namespace SourceMend

open Pattern (Cursor Match Place)

theorem Rule.fixFailed_iff {r : Rule} {p : Placement} {c : FindingClass × Severity}
    (h : r.classify p = some c) : c.1 = .fixFailed ↔ p = .admitted ∧ r.isFix = true := by
  cases p <;> cases hfix : r.isFix <;> simp only [classify, hfix] at h <;>
    first
    | contradiction
    | (obtain rfl := Option.some.inj h; simp)

namespace RuleSet

theorem siteFinding?_eq_some {path : String} {text : Text} {r : Rule} {site : MatchSite}
    {f : Finding} (h : siteFinding? path text r site = some f) :
    f.ruleId = r.id ∧ (f.kind = .fixFailed ↔ site.placement = .admitted ∧ r.isFix = true) := by
  obtain ⟨c, hc, rfl⟩ := Option.map_eq_some_iff.1 h
  exact ⟨rfl, Rule.fixFailed_iff hc⟩

/-- A fix rule finds a failed fix at each of its admitted sites. -/
theorem isFixFailed_siteFinding? {path : String} {text : Text} {r : Rule} (hfix : r.isFix = true)
    (site : MatchSite) :
    ((siteFinding? path text r site).map fun f => f.isFixFailed && f.ruleId = r.id).getD false =
      decide (site.placement = .admitted) := by
  cases hf : siteFinding? path text r site with
  | none =>
    have hnone : r.classify site.placement = none := Option.map_eq_none_iff.1 hf
    cases hp : site.placement <;> simp [Rule.classify, hfix, hp] at hnone ⊢
  | some f =>
    obtain ⟨hid, hkind⟩ := siteFinding?_eq_some hf
    simp [Finding.isFixFailed, hid, hkind, hfix]

/-- The findings of one rule. -/
def findingsOf (path : String) (text : Text) (d : Dialect) (r : Rule) : List Finding :=
  (r.matchSites text (ScopeMap.scan text d)).filterMap (siteFinding? path text r)

theorem ruleId_of_mem_findingsOf {path : String} {text : Text} {d : Dialect} {r : Rule}
    {f : Finding} (h : f ∈ findingsOf path text d r) : f.ruleId = r.id := by
  obtain ⟨site, -, hsite⟩ := List.mem_filterMap.1 h
  exact (siteFinding?_eq_some hsite).1

theorem validate_perm (s : RuleSet) (path : String) (text : Text) (d : Dialect) :
    (s.validate path text d).Perm (s.rules.flatMap (findingsOf path text d)) := by
  rw [validate_eq]
  exact List.mergeSort_perm _ _

theorem countP_findingsOf {path : String} {text : Text} {ctx : Context} {r : Rule}
    (hfix : r.isFix = true) :
    (findingsOf path text ctx.dialect r).countP (fun f => f.isFixFailed && f.ruleId = r.id) =
      (r.apply text ctx).fired := by
  rw [findingsOf, List.countP_filterMap, Rule.fired_eq_length hfix, Rule.rewrites,
    ← List.length_map, ← r.filter_sitesFrom _ 0, List.countP_eq_length_filter]
  simp only [isFixFailed_siteFinding? hfix]
  rfl

/-- The findings of the other rules have other ids. -/
theorem countP_flatMap_findingsOf {path : String} {text : Text} {d : Dialect} {id : String}
    {rules : List Rule} (h : ∀ r ∈ rules, r.id ≠ id) :
    (rules.flatMap (findingsOf path text d)).countP (fun f => f.isFixFailed && f.ruleId = id) =
      0 := by
  refine List.countP_eq_zero.2 fun f hf => ?_
  obtain ⟨r, hr, hmem⟩ := List.mem_flatMap.1 hf
  simp [ruleId_of_mem_findingsOf hmem, h r hr]

/-- Where no two rules have the same id, the failed fixes with the id of a rule are as many as its
replacements. -/
theorem countP_validate {s : RuleSet} (hids : (s.rules.map (·.id)).Nodup) {r : Rule}
    (hr : r ∈ s.rules) (hfix : r.isFix = true) (path : String) (text : Text) (ctx : Context) :
    (s.validate path text ctx.dialect).countP (fun f => f.isFixFailed && f.ruleId = r.id) =
      (r.apply text ctx).fired := by
  obtain ⟨front, back, hsplit⟩ := List.append_of_mem hr
  rw [hsplit, List.map_append, List.map_cons, List.nodup_append, List.nodup_cons] at hids
  obtain ⟨-, ⟨hback, -⟩, hfront⟩ := hids
  have hfront' (q : Rule) (hq : q ∈ front) : q.id ≠ r.id :=
    hfront q.id (List.mem_map_of_mem hq) r.id List.mem_cons_self
  have hback' (q : Rule) (hq : q ∈ back) : q.id ≠ r.id :=
    fun he => hback (he ▸ List.mem_map_of_mem hq)
  rw [(s.validate_perm path text ctx.dialect).countP_eq, hsplit, List.flatMap_append,
    List.flatMap_cons, List.countP_append, List.countP_append, countP_findingsOf hfix,
    countP_flatMap_findingsOf hfront', countP_flatMap_findingsOf hback', Nat.zero_add, Nat.add_zero]

/-- Rules leave no entry in the tally exactly when none of them fires on the text as it is. -/
theorem fires_foldl_passStep {ctx : Context} (rules : List Rule) {st : PassState}
    (h : st.Current ctx) :
    (rules.foldl (passStep ctx) st).fires = Tally.empty ↔
      st.fires = Tally.empty ∧ ∀ r ∈ rules, (r.apply st.text ctx).fired = 0 := by
  induction rules generalizing st with
  | nil => simp
  | cons r rules ih =>
    obtain ⟨htext, hcur⟩ := passStep_current h r
    rw [List.foldl_cons, ih hcur, passStep_fires h, htext, List.forall_mem_cons]
    by_cases hf : (r.apply st.text ctx).fired = 0
    · rw [if_neg (by omega), Rule.apply_text_of_fired_eq_zero hf]
      simp [hf]
    · rw [if_pos (by omega)]
      refine ⟨fun hadd => ?_, fun hnone => absurd hnone.2.1 hf⟩
      have hhas : (st.fires.add r.id (r.apply st.text ctx).fired.toUInt64).Has r.id :=
        (Tally.has_add _ _ _ _).2 (.inl rfl)
      rw [hadd.1] at hhas
      exact absurd hhas (Tally.not_has_empty r.id)

theorem fires_applyPass_eq_empty_iff (s : RuleSet) (text : Text) (ctx : Context) :
    (s.applyPass text ctx).fires = Tally.empty ↔
      ∀ r ∈ s.fixRules, (r.apply text ctx).fired = 0 := by
  have hstart : ({ text } : PassState).Current ctx := fun scope hs => by simp at hs
  exact (fires_foldl_passStep s.fixRules hstart).trans (and_iff_right rfl)

theorem applyAll_of_still {ctx : Context} {rules : List Rule} {text : Text}
    (h : ∀ r ∈ rules, (r.apply text ctx).fired = 0) : applyAll ctx rules text = text := by
  induction rules with
  | nil => rfl
  | cons r rules ih =>
    obtain ⟨hr, hrules⟩ := List.forall_mem_cons.1 h
    rw [applyAll, List.foldl_cons, Rule.apply_text_of_fired_eq_zero hr]
    exact ih hrules

theorem validate_no_fixFailed_iff (s : RuleSet) (path : String) (text : Text) (ctx : Context) :
    (∀ f ∈ s.validate path text ctx.dialect, f.kind ≠ .fixFailed) ↔
      ∀ r ∈ s.fixRules, (r.apply text ctx).fired = 0 := by
  constructor
  · intro h r hr
    obtain ⟨hmem, hfix⟩ := List.mem_filter.1 hr
    have hcount : (findingsOf path text ctx.dialect r).countP
        (fun f => f.isFixFailed && f.ruleId = r.id) = 0 := by
      refine List.countP_eq_zero.2 fun f hf => ?_
      have hval : f ∈ s.validate path text ctx.dialect :=
        (s.validate_perm path text ctx.dialect).mem_iff.2 (List.mem_flatMap.2 ⟨r, hmem, hf⟩)
      simp [Finding.isFixFailed, h f hval]
    rwa [countP_findingsOf hfix] at hcount
  · exact fun h f hf => validate_kind_ne_fixFailed h hf

end RuleSet

/-- For each fix rule of a set that was built, the failed fixes with its id are as many as the
matches that it replaces, and its admitted sites are the ranges that it replaces, from left to
right. So no failed fix is found exactly when a pass leaves its tally empty, and then the pass gives
back the text. -/
theorem RuleDraft.validation_agrees_with_repair {d : RuleDraft} {s : RuleSet}
    (hs : d.build = .ok s) (text : Text) (ctx : Context) (path : String) :
    (∀ r ∈ s.rules, ∀ own, r.replacement = some own →
      (s.validate path text ctx.dialect).countP
          (fun f => f.kind = .fixFailed ∧ f.ruleId = r.id) = (r.apply text ctx).fired ∧
      let scope := ScopeMap.scan text ctx.dialect
      let edits := r.replacements scope own ctx.path text
      (r.apply text ctx).text = Text.splice 0 text edits ∧
      (r.apply text ctx).fired = edits.length ∧
      (r.matchSites text scope).filter (·.placement = .admitted) =
        edits.map (fun e => ⟨e.start, e.stop, .admitted⟩) ∧
      (∀ e ∈ edits, e.start < e.stop) ∧ edits.Pairwise fun a b => a.stop ≤ b.start) ∧
    ((∀ f ∈ s.validate path text ctx.dialect, f.kind ≠ .fixFailed) ↔
      (s.applyPass text ctx).fires = Tally.empty) ∧
    ((s.applyPass text ctx).fires = Tally.empty → (s.applyPass text ctx).text = text) := by
  refine ⟨fun r hr own hown => ?_, ?_, fun hempty => ?_⟩
  · have hfix : r.isFix = true := by simp [Rule.isFix, hown]
    refine ⟨?_, Rule.apply_eq_splice hown text ctx, ?_, r.admitted_matchSites _ own ctx.path text,
      r.replacements_sideBySide _ own ctx.path text⟩
    · rw [← RuleSet.countP_validate (nodup_ids_build hs) hr hfix path text ctx]
      simp [Finding.isFixFailed]
    · rw [Rule.fired_eq_length hfix, Rule.replacements, List.length_map]
  · rw [s.validate_no_fixFailed_iff, s.fires_applyPass_eq_empty_iff]
  · rw [RuleSet.applyPass_text]
    exact RuleSet.applyAll_of_still ((s.fires_applyPass_eq_empty_iff text ctx).1 hempty)

/-- Exchanges two letters, and nothing else is in the set. -/
def swapDraft : RuleDraft := { rules := [swapRule] }

theorem build_swapDraft : swapDraft.build = .ok ⟨1, [swapRule]⟩ :=
  RuleDraft.build_eq (by decide) rfl rfl rfl rfl (by simp [Rule.KeepsExamples, swapRule])
    (by decide +kernel)

theorem validation_agrees_with_repair_swap : swapDraft.build = .ok ⟨1, [swapRule]⟩ ∧
    (swapRule.apply "A B, B A".toList .bare).fired = 2 ∧
    (RuleSet.validate ⟨1, [swapRule]⟩ "a.ts" "A B, B A".toList .script).countP
      (fun f => f.kind = .fixFailed ∧ f.ruleId = "swap") =
        (swapRule.apply "A B, B A".toList .bare).fired := by
  have h := RuleDraft.validation_agrees_with_repair build_swapDraft "A B, B A".toList .bare "a.ts"
  exact ⟨build_swapDraft, by decide +kernel, (h.1 swapRule List.mem_cons_self _ rfl).1⟩

namespace RuleSet

theorem mem_validate {s : RuleSet} {path : String} {text : Text} {d : Dialect} {r : Rule}
    (hr : r ∈ s.rules) {site : MatchSite} (hsite : site ∈ r.matchSites text (ScopeMap.scan text d))
    {f : Finding} (hf : siteFinding? path text r site = some f) : f ∈ s.validate path text d :=
  (s.validate_perm path text d).mem_iff.2
    (List.mem_flatMap.2 ⟨r, hr, List.mem_filterMap.2 ⟨site, hsite, hf⟩⟩)

/-- Every finding is about the file that was looked at. -/
theorem path_of_mem_validate {s : RuleSet} {path : String} {text : Text} {d : Dialect}
    {f : Finding} (h : f ∈ s.validate path text d) : f.path = path := by
  obtain ⟨r, -, hr⟩ := List.mem_flatMap.1 ((s.validate_perm path text d).mem_iff.1 h)
  obtain ⟨site, -, hsite⟩ := List.mem_filterMap.1 hr
  obtain ⟨c, -, rfl⟩ := Option.map_eq_some_iff.1 hsite
  rfl

/-- A site of a fix rule that touches no literal gives a finding. -/
theorem siteFinding?_of_ne_literal {path : String} {text : Text} {r : Rule}
    (hfix : r.isFix = true) {site : MatchSite} (h : site.placement ≠ .literal) :
    ∃ f, siteFinding? path text r site = some f ∧ f.ruleId = r.id ∧
      f.kind = if site.placement = .admitted then .fixFailed else .residual := by
  cases hp : site.placement with
  | admitted => exact ⟨_, by simp only [siteFinding?, Rule.classify, hp, hfix]; rfl, rfl, rfl⟩
  | outOfScope => exact ⟨_, by simp only [siteFinding?, Rule.classify, hp, hfix]; rfl, rfl, rfl⟩
  | literal => exact absurd hp h

/-- A match of a fix rule that is all code is reported: a site around its start gives a finding.
The only exception is a match outside the frames of its rule, when every site around its start
touches a literal. -/
theorem code_match_reported_or_hidden (s : RuleSet) (path : String) (d : Dialect) {r : Rule}
    (hr : r ∈ s.fixRules) {before after : Text} {m : Match}
    (hm : r.pattern.matchAt (.between before after) = some m) (hne : m.isEmpty = false)
    (hcode : ∀ i, m.start.pos ≤ i → i < m.stop.pos →
      (ScopeMap.scan (before ++ after) d).kindAt i = .code) :
    let text := before ++ after
    let scope := ScopeMap.scan text d
    let around := r.sitesAround scope text (Text.size before)
    (∃ site ∈ around, (site.placement = .admitted ∨ site.placement = .outOfScope) ∧
      ∃ f ∈ s.validate path text d, siteFinding? path text r site = some f ∧ f.ruleId = r.id ∧
        f.kind = if site.placement = .admitted then .fixFailed else .residual) ∨
    r.placement scope m = .outOfScope ∧ around ≠ [] ∧
      ∀ site ∈ around, site.placement = .literal := by
  intro text scope around
  obtain ⟨hrules, hfix⟩ := List.mem_filter.1 hr
  obtain ⟨hlt, site, hsite, hlit⟩ := r.exists_site_around scope hm hne
  have hnot : r.placement scope m ≠ .literal := by
    rw [Rule.placement, (ScopeMap.isCode_iff text d hlt).2 hcode]
    simp only [Bool.not_true, Bool.false_eq_true, if_false]
    split <;> simp
  by_cases hex : ∃ site ∈ around, site.placement ≠ .literal
  · obtain ⟨site, hsite, hp⟩ := hex
    obtain ⟨f, hf, hid, hkind⟩ := siteFinding?_of_ne_literal hfix hp
    have hval : f ∈ s.validate path text d := mem_validate hrules (List.mem_filter.1 hsite).1 hf
    refine .inl ⟨site, hsite, ?_, f, hval, hf, hid, hkind⟩
    cases hcase : site.placement with
    | admitted => exact .inl rfl
    | outOfScope => exact .inr rfl
    | literal => exact absurd hcase hp
  · have hall : ∀ site ∈ around, site.placement = .literal :=
      fun site h => by_contra fun hp => hex ⟨site, h, hp⟩
    refine .inr ⟨?_, List.ne_nil_of_mem hsite, hall⟩
    cases hcase : r.placement scope m with
    | admitted => exact absurd hcase (hlit (hall site hsite))
    | outOfScope => rfl
    | literal => exact absurd hcase hnot

end RuleSet

/-- Its longer match runs into a string, and the shorter one inside is code. -/
def reachRule : Rule where
  id := "reach"
  category := "demo"
  pattern := {
    source := "ab\"|b"
    node := .alt (.literal ['a', 'b', '"']) (.literal ['b'])
    groupNames := [none] }
  replacement := some "z"
  guard := .typeBody

/-- The first of the letters `b` is hidden, and the second one is reported. -/
def reachText : Text := "ab\"c\" b".toList

def reachScope : ScopeMap := ScopeMap.scan reachText .script

theorem code_match_reported_or_hidden_reach :
    ∃ m, reachRule.pattern.matchAt (.between "ab\"c\" ".toList ['b']) = some m ∧
      m.isEmpty = false ∧ (∀ i, m.start.pos ≤ i → i < m.stop.pos → reachScope.kindAt i = .code) ∧
      ((∃ site ∈ reachRule.sitesAround reachScope reachText 6,
        (site.placement = .admitted ∨ site.placement = .outOfScope) ∧
        ∃ f ∈ RuleSet.validate ⟨1, [reachRule]⟩ "a.ts" reachText .script,
          RuleSet.siteFinding? "a.ts" reachText reachRule site = some f ∧ f.ruleId = "reach" ∧
          f.kind = if site.placement = .admitted then .fixFailed else .residual) ∨
      reachRule.placement reachScope m = .outOfScope ∧
        reachRule.sitesAround reachScope reachText 6 ≠ [] ∧
        ∀ site ∈ reachRule.sitesAround reachScope reachText 6, site.placement = .literal) := by
  have hfound : (reachRule.pattern.matchAt (.between "ab\"c\" ".toList ['b'])).map
      (fun m => (m.start.pos, m.stop.pos)) = some (6, 7) := by decide +kernel
  obtain ⟨m, hm, hpos⟩ := Option.map_eq_some_iff.1 hfound
  obtain ⟨hstart, hstop⟩ := Prod.mk.inj hpos
  have hne : m.isEmpty = false := by simp [Match.isEmpty, hstart, hstop]
  have hcode : ∀ i, m.start.pos ≤ i → i < m.stop.pos → reachScope.kindAt i = .code := by
    intro i hi hlt
    obtain rfl : i = 6 := by omega
    decide +kernel
  exact ⟨m, hm, hne, hcode, RuleSet.code_match_reported_or_hidden ⟨1, [reachRule]⟩ "a.ts" .script
    List.mem_cons_self hm hne hcode⟩

/-- The first `b` is a match in code outside every body. The only site around it touches the string,
so no finding is about it. -/
theorem code_match_hidden_by_literal :
    (reachRule.pattern.matchAt (.between ['a'] "b\"c\" b".toList)).map
      (fun m => (m.start.pos, m.stop.pos, reachRule.placement reachScope m)) =
        some (1, 2, .outOfScope) ∧
    reachScope.kindAt 1 = .code ∧
    reachRule.matchSites reachText reachScope = [⟨0, 3, .literal⟩, ⟨6, 7, .outOfScope⟩] ∧
    (RuleSet.validate ⟨1, [reachRule]⟩ "a.ts" reachText .script).map (·.location) = [⟨1, 7⟩] := by
  decide +kernel

end SourceMend
