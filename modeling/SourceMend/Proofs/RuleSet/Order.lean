import SourceMend.Proofs.Finding
import SourceMend.Proofs.RuleSet.Validation

/-!
The order of findings. The sites of a rule start one behind the other, so its findings in a text lie
at places one behind the other. The findings of different rules have different ids.
-/
namespace SourceMend

open Pattern (Match Place)

/-- Of two cuts of a text the later one has more in front. -/
theorem Text.exists_more {before after before' after' : Text}
    (h : before ++ after = before' ++ after') (hlt : size before < size before') :
    ∃ more, more ≠ [] ∧ before' = before ++ more := by
  rcases List.append_eq_append_iff.1 h with ⟨more, rfl, -⟩ | ⟨more, rfl, -⟩
  · refine ⟨more, ?_, rfl⟩
    rintro rfl
    simp at hlt
  · rw [size_append] at hlt
    omega

namespace Rule

variable (r : Rule) (scope : ScopeMap)

/-- The sites are those of some of the places, in their order. -/
theorem sitesFrom_sublist (reported : Nat) (places : List Place) :
    (r.sitesFrom scope reported places).Sublist
      (places.filterMap fun p => (matchAt? p).map (r.siteOf scope)) := by
  fun_induction sitesFrom r scope reported places with
  | case1 => exact .slnil
  | case2 reported p rest hp ih => simpa [hp] using ih
  | case3 reported p rest m hp place site reported' hadm ih =>
    rw [List.filterMap_cons_some (by rw [hp]; rfl)]
    exact (ih.trans ((List.dropWhile_sublist _).filterMap _)).cons_cons site
  | case4 reported p rest m hp place site reported' hadm hle ih =>
    rw [List.filterMap_cons_some (by rw [hp]; rfl)]
    exact ih.cons_cons site
  | case5 reported p rest m hp place hadm hle ih =>
    rw [List.filterMap_cons_some (by rw [hp]; rfl)]
    exact ih.cons _

/-- A site parts the text in three. -/
theorem exists_parts_of_mem_matchSites {text : Text} {site : MatchSite}
    (h : site ∈ r.matchSites text scope) :
    ∃ before old after, text = before ++ old ++ after ∧ old ≠ [] ∧
      site.start = Text.size before ∧ site.stop = Text.size (before ++ old) := by
  obtain ⟨p, hp, hsite⟩ := List.mem_filterMap.1 ((r.sitesFrom_sublist scope 0 _).subset h)
  obtain ⟨m, hm, rfl⟩ := Option.map_eq_some_iff.1 hsite
  exact r.exists_parts_of_mem_places hp hm

/-- A site starts behind some of the text, but not behind all of it. -/
theorem exists_before_of_mem_matchSites {text : Text} {site : MatchSite}
    (h : site ∈ r.matchSites text scope) :
    ∃ before rest, text = before ++ rest ∧ rest ≠ [] ∧ site.start = Text.size before := by
  obtain ⟨before, old, after, rfl, hne, hstart, -⟩ := r.exists_parts_of_mem_matchSites scope h
  exact ⟨before, old ++ after, List.append_assoc .., List.append_ne_nil_of_left_ne_nil hne after,
    hstart⟩

/-- The sites of a text start one behind the other. -/
theorem pairwise_matchSites (text : Text) :
    (r.matchSites text scope).Pairwise fun a b => a.start < b.start := by
  have hsurvey := r.surveyed_places text
  have hplaces : (r.places text).Pairwise fun p q => p.cursor.pos < q.cursor.pos :=
    r.places_eq text ▸ r.pairwise_placesBehind [] text
  refine List.Pairwise.sublist (r.sitesFrom_sublist scope 0 _) ?_
  refine List.Pairwise.filterMap _ ?_ (List.Pairwise.and_mem.1 hplaces)
  rintro p q ⟨hp, hq, hlt⟩ a ha b hb
  obtain ⟨m, hm, rfl⟩ := Option.map_eq_some_iff.1 ha
  obtain ⟨n, hn, rfl⟩ := Option.map_eq_some_iff.1 hb
  rwa [siteOf, siteOf, (hsurvey.of_matchAt? hp hm).1, (hsurvey.of_matchAt? hq hn).1]

end Rule

/-- Where a finding puts the site. -/
def MatchSite.location (site : MatchSite) (text : Text) : Location :=
  .after (text.takeBytes site.start)

/-- Of two sites of a text, also of different rules, the later one has the later place. -/
theorem Rule.location_precedes_of_lt {r q : Rule} {scope : ScopeMap} {text : Text}
    {a b : MatchSite} (ha : a ∈ r.matchSites text scope) (hb : b ∈ q.matchSites text scope)
    (hsize : text.length < UInt64.size) (hlt : a.start < b.start) :
    (a.location text).precedes (b.location text) = true := by
  obtain ⟨before, rest, rfl, -, hstart⟩ := r.exists_before_of_mem_matchSites scope ha
  obtain ⟨before', rest', htext, hrest, hstart'⟩ := q.exists_before_of_mem_matchSites scope hb
  obtain ⟨more, hmore, rfl⟩ := Text.exists_more htext (by rwa [← hstart, ← hstart'])
  rw [MatchSite.location, MatchSite.location, hstart, Text.takeBytes_size_append, hstart', htext,
    Text.takeBytes_size_append]
  refine Location.precedes_after hmore ?_
  rw [htext, List.length_append] at hsize
  have := List.length_pos_iff.2 hrest
  omega

namespace RuleSet

theorem location_of_siteFinding? {path : String} {text : Text} {r : Rule} {site : MatchSite}
    {f : Finding} (h : siteFinding? path text r site = some f) :
    f.location = site.location text := by
  obtain ⟨c, -, rfl⟩ := Option.map_eq_some_iff.1 h
  rfl

/-- The findings of a rule in a text lie at places one behind the other. -/
theorem pairwise_findingsOf {text : Text} (hsize : text.length < UInt64.size) (path : String)
    (d : Dialect) (r : Rule) :
    (findingsOf path text d r).Pairwise fun f g => f.location.precedes g.location = true := by
  refine List.Pairwise.filterMap _ ?_
    (List.Pairwise.and_mem.1 (r.pairwise_matchSites (ScopeMap.scan text d) text))
  rintro a b ⟨ha, hb, hlt⟩ f hf g hg
  rw [location_of_siteFinding? hf, location_of_siteFinding? hg]
  exact Rule.location_precedes_of_lt ha hb hsize hlt

/-- Where no two rules have the same id, no two findings have the same id and place. -/
theorem pairwise_validate {s : RuleSet} (hids : (s.rules.map (·.id)).Nodup) {text : Text}
    (hsize : text.length < UInt64.size) (path : String) (d : Dialect) :
    (s.validate path text d).Pairwise fun f g => f.ruleId = g.ruleId → f.location ≠ g.location := by
  have hsymm {f g : Finding} (h : f.ruleId = g.ruleId → f.location ≠ g.location) :
      g.ruleId = f.ruleId → g.location ≠ f.location :=
    fun he => (h he.symm).symm
  refine ((s.validate_perm path text d).pairwise_iff hsymm).2 (List.pairwise_flatMap.2 ⟨?_, ?_⟩)
  · intro r _
    refine (pairwise_findingsOf hsize path d r).imp ?_
    intro f g hlt _ heq
    rw [heq, Location.not_precedes_self] at hlt
    contradiction
  · refine (List.pairwise_map.1 hids).imp ?_
    intro r q hne f hf g hg heq
    rw [ruleId_of_mem_findingsOf hf, ruleId_of_mem_findingsOf hg] at heq
    exact absurd heq hne

end RuleSet
end SourceMend
