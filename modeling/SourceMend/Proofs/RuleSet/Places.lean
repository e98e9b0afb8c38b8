import SourceMend.Proofs.RuleSet.Cycles
import SourceMend.Proofs.RuleSet.Order
import SourceMend.Proofs.Text.Lines

/-!
Findings in the order of the text. The place of a site is the line and the column of its first
character, so places stand to each other as the offsets do. Findings are sorted by place and then by
rule, and no two have both in common: each one comes strictly behind the one before it.
-/
namespace SourceMend

namespace Location

/-- The place is line and column, both counted from one, of the character at an offset. -/
def Names (place : Location) (text : Text) (offset : Nat) : Prop :=
  ∃ front line back, text.splitLines = front ++ line :: back ∧
    place.line.toNat = front.length + 1 ∧ 0 < place.col.toNat ∧ place.col.toNat ≤ line.length ∧
    offset = Text.size (front.flatten ++ line.take (place.col.toNat - 1))

theorem names_after {before rest : Text} (hrest : rest ≠ [])
    (hsize : (before ++ rest).length < UInt64.size) :
    (after before).Names (before ++ rest) (Text.size before) := by
  have hpos := List.length_pos_iff.2 hrest
  rw [List.length_append] at hsize
  have hshort : before.length + 1 < UInt64.size := by omega
  obtain ⟨hline, hcol⟩ := toNat_after hshort
  obtain ⟨front, line, back, hsplit, hcount, hlt, hbefore⟩ := Text.exists_line before hrest
  refine ⟨front, line, back, hsplit, by rw [hline, hcount], ?_⟩
  rw [hcol, Nat.add_sub_cancel]
  exact ⟨Nat.succ_pos _, hlt, congrArg Text.size hbefore⟩

theorem precedes_iff {a b : Location} : a.precedes b = true ↔
    a.line.toNat < b.line.toNat ∨ a.line.toNat = b.line.toNat ∧ a.col.toNat < b.col.toNat := by
  simp [precedes, UInt64.lt_iff_toNat_lt, ← UInt64.toNat_inj]

theorem precedes_trans {a b c : Location} (hab : a.precedes b = true)
    (hbc : b.precedes c = true) : a.precedes c = true := by
  rw [precedes_iff] at *
  omega

theorem precedes_or_eq_or_precedes (a b : Location) :
    a.precedes b = true ∨ a = b ∨ b.precedes a = true := by
  have heq : a = b ↔ a.line.toNat = b.line.toNat ∧ a.col.toNat = b.col.toNat := by
    rw [UInt64.toNat_inj, UInt64.toNat_inj, Location.mk.injEq]
  rw [precedes_iff, precedes_iff, heq]
  omega

end Location

namespace Finding

/-- By place, and at one place by rule. -/
def Before (f g : Finding) : Prop :=
  f.location.precedes g.location = true ∨ f.location = g.location ∧ f.ruleId < g.ruleId

theorem notAfter_iff {f g : Finding} : f.notAfter g = true ↔
    f.location.precedes g.location = true ∨ f.location = g.location ∧ f.ruleId ≤ g.ruleId := by
  rw [notAfter]
  split
  next heq => simp [heq, Location.not_precedes_self]
  next hne => simp [hne]

theorem notAfter_trans (f g h : Finding) (hfg : f.notAfter g = true) (hgh : g.notAfter h = true) :
    f.notAfter h = true := by
  rw [notAfter_iff] at *
  rcases hfg with hfg | ⟨hplace, hid⟩
  · rcases hgh with hgh | ⟨hplace', -⟩
    · exact .inl (Location.precedes_trans hfg hgh)
    · exact .inl (hplace' ▸ hfg)
  · rw [hplace]
    exact hgh.imp_right (And.imp_right (String.le_trans hid))

theorem notAfter_total (f g : Finding) : (f.notAfter g || g.notAfter f) = true := by
  rw [Bool.or_eq_true, notAfter_iff, notAfter_iff]
  rcases Location.precedes_or_eq_or_precedes f.location g.location with hlt | heq | hlt
  · exact .inl (.inl hlt)
  · rcases String.le_total f.ruleId g.ruleId with hle | hle
    · exact .inl (.inr ⟨heq, hle⟩)
    · exact .inr (.inr ⟨heq.symm, hle⟩)
  · exact .inr (.inl hlt)

/-- Of two findings in sorted order that differ in rule or place the first comes before the
second. -/
theorem before_of_notAfter {f g : Finding} (h : f.notAfter g = true)
    (hne : f.ruleId = g.ruleId → f.location ≠ g.location) : f.Before g := by
  refine (notAfter_iff.1 h).imp_right fun ⟨hplace, hle⟩ => ⟨hplace, String.not_le.1 fun hge => ?_⟩
  exact hne (String.le_antisymm hle hge) hplace

end Finding

namespace Rule

variable {r q : Rule} {scope : ScopeMap} {text : Text} {a b : MatchSite}

theorem location_names (ha : a ∈ r.matchSites text scope) (hsize : text.length < UInt64.size) :
    (a.location text).Names text a.start := by
  obtain ⟨before, rest, rfl, hrest, hstart⟩ := r.exists_before_of_mem_matchSites scope ha
  rw [MatchSite.location, hstart, Text.takeBytes_size_append]
  exact Location.names_after hrest hsize

/-- The places of two sites are in the order of the sites, and equal if both start together. -/
theorem location_order (ha : a ∈ r.matchSites text scope) (hb : b ∈ q.matchSites text scope)
    (hsize : text.length < UInt64.size) :
    ((a.location text).precedes (b.location text) = true ↔ a.start < b.start) ∧
      (a.location text = b.location text ↔ a.start = b.start) := by
  rcases Nat.lt_trichotomy a.start b.start with hlt | heq | hgt
  · have hplace := location_precedes_of_lt ha hb hsize hlt
    have hne : a.location text ≠ b.location text := fun he => by
      rw [he, Location.not_precedes_self] at hplace
      contradiction
    exact ⟨iff_of_true hplace hlt, iff_of_false hne (Nat.ne_of_lt hlt)⟩
  · have hplace : a.location text = b.location text := by
      rw [MatchSite.location, MatchSite.location, heq]
    refine ⟨?_, iff_of_true hplace heq⟩
    simp [hplace, Location.not_precedes_self, heq]
  · have hplace := location_precedes_of_lt hb ha hsize hgt
    have hnot : ¬ (a.location text).precedes (b.location text) = true := fun h => by
      have := Location.precedes_trans h hplace
      rw [Location.not_precedes_self] at this
      contradiction
    have hne : a.location text ≠ b.location text := fun he => hnot (he ▸ hplace)
    exact ⟨iff_of_false hnot (Nat.lt_asymm hgt), iff_of_false hne (Nat.ne_of_gt hgt)⟩

end Rule

namespace RuleSet

/-- A finding is at the place of a site of its rule. -/
theorem exists_site_of_mem_validate {s : RuleSet} {path : String} {text : Text} {d : Dialect}
    {f : Finding} (h : f ∈ s.validate path text d) :
    ∃ r ∈ s.rules, ∃ site ∈ r.matchSites text (ScopeMap.scan text d),
      f.ruleId = r.id ∧ f.location = site.location text := by
  obtain ⟨r, hr, hf⟩ := List.mem_flatMap.1 ((s.validate_perm path text d).mem_iff.1 h)
  obtain ⟨site, hsite, hfound⟩ := List.mem_filterMap.1 hf
  exact ⟨r, hr, site, hsite, (siteFinding?_eq_some hfound).1, location_of_siteFinding? hfound⟩

/-- Where no two rules have the same id, the findings come strictly one behind the other. -/
theorem pairwise_before_validate {s : RuleSet} (hids : (s.rules.map (·.id)).Nodup) {text : Text}
    (hsize : text.length < UInt64.size) (path : String) (d : Dialect) :
    (s.validate path text d).Pairwise Finding.Before := by
  have hsorted : (s.validate path text d).Pairwise fun f g => f.notAfter g = true :=
    List.pairwise_mergeSort Finding.notAfter_trans Finding.notAfter_total _
  exact hsorted.imp₂ (fun _ _ => Finding.before_of_notAfter) (pairwise_validate hids hsize path d)

end RuleSet

/-- What a built rule set finds in a text comes in strict order of place and rule. Each place names
the line and the column of a site, and places of sites are ordered as the sites are. The text is one
whose characters 64 bits can count, as those of every text in memory. -/
theorem RuleDraft.findings_in_text_order {draft : RuleDraft} {s : RuleSet}
    (hs : draft.build = .ok s) {text : Text} (hsize : text.length < UInt64.size) (path : String)
    (d : Dialect) :
    let scope := ScopeMap.scan text d
    (s.validate path text d).Pairwise Finding.Before ∧
    (s.validate path text d).Pairwise (fun f g => f.ruleId = g.ruleId → f.location ≠ g.location) ∧
    (∀ f ∈ s.validate path text d, ∃ r ∈ s.rules, ∃ site ∈ r.matchSites text scope,
      f.ruleId = r.id ∧ f.location = site.location text) ∧
    ∀ r ∈ s.rules, ∀ a ∈ r.matchSites text scope, (a.location text).Names text a.start ∧
      ∀ q ∈ s.rules, ∀ b ∈ q.matchSites text scope,
        ((a.location text).precedes (b.location text) = true ↔ a.start < b.start) ∧
        (a.location text = b.location text ↔ a.start = b.start) := by
  have hids := nodup_ids_build hs
  refine ⟨s.pairwise_before_validate hids hsize path d, s.pairwise_validate hids hsize path d,
    fun f hf => RuleSet.exists_site_of_mem_validate hf, fun r _ a ha => ?_⟩
  exact ⟨Rule.location_names ha hsize, fun q _ b hb => Rule.location_order ha hb hsize⟩

/-- Two rules for one letter, the first of them with the later name. -/
def rivalRules : RuleSet := ⟨1, [letterRule "z" 'b' 'c', letterRule "y" 'b' 'd']⟩

/-- Each rule has a site on both letters of the second line, so there are two findings at each. -/
theorem findings_in_text_order_rivals :
    RuleDraft.build { rules := rivalRules.rules } = .ok rivalRules ∧
    "é\nbb".toList.length < UInt64.size ∧
    (rivalRules.validate "a.ts" "é\nbb".toList .script).length = 4 ∧
    (rivalRules.validate "a.ts" "é\nbb".toList .script).Pairwise Finding.Before ∧
    ∀ r ∈ rivalRules.rules,
      r.matchSites "é\nbb".toList (ScopeMap.scan "é\nbb".toList .script) =
        [⟨3, 4, .admitted⟩, ⟨4, 5, .admitted⟩] ∧
      Location.Names ⟨2, 1⟩ "é\nbb".toList 3 ∧ Location.Names ⟨2, 2⟩ "é\nbb".toList 4 := by
  have hbuild : RuleDraft.build { rules := rivalRules.rules } = .ok rivalRules :=
    RuleDraft.build_eq (by decide) rfl rfl rfl rfl (by decide +kernel) (by decide +kernel)
  have hsize : "é\nbb".toList.length < UInt64.size := by decide +kernel
  have hsites : ∀ r ∈ rivalRules.rules,
      r.matchSites "é\nbb".toList (ScopeMap.scan "é\nbb".toList .script) =
        [⟨3, 4, .admitted⟩, ⟨4, 5, .admitted⟩] := by
    decide +kernel
  have hcount : (rivalRules.validate "a.ts" "é\nbb".toList .script).length = 4 := by
    rw [(rivalRules.validate_perm _ _ _).length_eq]
    decide +kernel
  obtain ⟨hsorted, -, -, hplaces⟩ := RuleDraft.findings_in_text_order hbuild hsize "a.ts" .script
  refine ⟨hbuild, hsize, hcount, hsorted, fun r hr => ⟨hsites r hr, ?_, ?_⟩⟩
  · exact (hplaces r hr ⟨3, 4, .admitted⟩ (by rw [hsites r hr]; simp)).1
  · exact (hplaces r hr ⟨4, 5, .admitted⟩ (by rw [hsites r hr]; simp)).1

end SourceMend
