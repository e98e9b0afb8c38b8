import SourceMend.Proofs.RuleSet.Cycles

/-!
Why the cycle check refuses. The cycle that it reports is a chain that starts from an output of its
origin. It comes back to the origin, or it fires in each of more rounds than twice the number of
rules, and then some rule fires three times. So a chain that stays away from its origin and lets no
rule fire more than twice is accepted.
-/
namespace SourceMend

/-- A list over some values, each of which comes at most `k` times, is not longer than `k` times
their number. -/
theorem length_le_of_count_le {k : Nat} {values l : List String} (hmem : ∀ a ∈ l, a ∈ values)
    (hcount : ∀ a ∈ values, l.count a ≤ k) : l.length ≤ k * values.length := by
  induction values generalizing l with
  | nil =>
    rw [List.eq_nil_iff_forall_not_mem.2 fun a ha => absurd (hmem a ha) List.not_mem_nil]
    exact Nat.zero_le _
  | cons v rest ih =>
    obtain ⟨hv, hrest⟩ := List.forall_mem_cons.1 hcount
    have hothers : (l.filter (· ≠ v)).length ≤ k * rest.length := by
      refine ih (fun a ha => ?_) fun a ha => (List.filter_sublist.count_le a).trans (hrest a ha)
      obtain ⟨hl, hne⟩ := List.mem_filter.1 ha
      exact (List.mem_cons.1 (hmem a hl)).resolve_left (by simpa using hne)
    have hsplit : l.length = l.count v + (l.filter (· ≠ v)).length := by
      rw [List.count, List.length_eq_countP_add_countP (· == v),
        List.countP_eq_length_filter (l := l) (p := fun a => decide ¬ (a == v) = true)]
      simp
    rw [List.length_cons, Nat.mul_succ]
    omega

namespace Cycle

theorem checkSeeds_eq_error {fixers : List Rule} {origin : String} {texts : List Text}
    {cycle : List String} (h : checkSeeds fixers origin texts = .error cycle) :
    ∃ seed ∈ texts,
      settle fixers origin (2 * fixers.length + 2) ⟨seed, [origin]⟩ = .error cycle := by
  induction texts with
  | nil => contradiction
  | cons first rest ih =>
    rcases eq_error_of_bind h with hfirst | ⟨-, -, hrest⟩
    · exact ⟨first, List.mem_cons_self, hfirst⟩
    · obtain ⟨seed, hseed, hsettle⟩ := ih hrest
      exact ⟨seed, List.mem_cons_of_mem first hseed, hsettle⟩

theorem checkOrigins_eq_error {fixers origins : List Rule} {cycle : List String}
    (h : checkOrigins fixers origins = .error cycle) :
    ∃ r ∈ origins, checkSeeds fixers r.id (seeds r) = .error cycle := by
  induction origins with
  | nil => contradiction
  | cons first rest ih =>
    rcases eq_error_of_bind h with hfirst | ⟨-, -, hrest⟩
    · exact ⟨first, List.mem_cons_self, hfirst⟩
    · obtain ⟨r, hr, hseeds⟩ := ih hrest
      exact ⟨r, List.mem_cons_of_mem first hr, hseeds⟩

/-- In a chain that is longer than twice the number of rules some rule fires three times. -/
theorem exists_three_le_count {fixers chain : List Rule} (hmem : ∀ r ∈ chain, r ∈ fixers)
    (hlong : 2 * fixers.length < chain.length) :
    ∃ r ∈ fixers, 3 ≤ (chain.map (·.id)).count r.id := by
  by_contra hnone
  have hids : ∀ id ∈ chain.map (·.id), id ∈ fixers.map (·.id) := by
    intro id hid
    obtain ⟨r, hr, rfl⟩ := List.mem_map.1 hid
    exact List.mem_map_of_mem (hmem r hr)
  have htwice : ∀ id ∈ fixers.map (·.id), (chain.map (·.id)).count id ≤ 2 := by
    intro id hid
    obtain ⟨r, hr, rfl⟩ := List.mem_map.1 hid
    by_contra hmore
    exact hnone ⟨r, hr, by omega⟩
  have hshort := length_le_of_count_le hids htwice
  rw [List.length_map, List.length_map] at hshort
  omega

/-- A refused set of rules has an origin and an output of it from which a chain starts that comes
back to the origin or has a rule three times. -/
theorem check_eq_error {rules : List Rule} {cycle : List String}
    (h : check rules = .error (.cyclicTrigger cycle)) :
    let fixers := rules.filter (·.isFix)
    ∃ origin ∈ fixers, ∃ seed ∈ seeds origin, ∃ chain,
      chain <+: firings fixers (2 * fixers.length + 2) seed ∧
      cycle = origin.id :: chain.map (·.id) ∧
      ((∃ r ∈ chain, r.id = origin.id) ∨ ∃ r ∈ fixers, 3 ≤ (chain.map (·.id)).count r.id) := by
  intro fixers
  unfold check at h
  dsimp only at h
  split at h
  next cycle' horigins =>
    obtain rfl : cycle' = cycle := RuleError.cyclicTrigger.inj (Except.error.inj h)
    obtain ⟨origin, horigin, hseeds⟩ := checkOrigins_eq_error horigins
    obtain ⟨seed, hseed, hsettle⟩ := checkSeeds_eq_error hseeds
    obtain ⟨chain, hfront, hcycle, hend⟩ := settle_eq_error hsettle
    refine ⟨origin, horigin, seed, hseed, chain, hfront, hcycle, hend.imp_right fun hlong => ?_⟩
    exact exists_three_le_count (fun r hr => mem_of_mem_firings (hfront.subset hr))
      (Nat.lt_of_succ_lt hlong)
  · contradiction

theorem mem_seeds {r : Rule} {seed : Text} : seed ∈ seeds r ↔
    (∃ e ∈ r.examples, e.expected.toList = seed) ∨ seed ∈ r.literalOutputs := by
  rw [seeds, List.mem_append, List.mem_map]

end Cycle

/-- The step does not report a cycle. -/
def ReportsNoCycle {α : Type} (x : Except RuleError α) : Prop :=
  ∀ cycle, x ≠ .error (.cyclicTrigger cycle)

namespace ReportsNoCycle

theorem ok {α : Type} (a : α) : ReportsNoCycle (.ok a) := fun _ h => by cases h

theorem error {α : Type} {cause : RuleError} (h : ∀ cycle, cause ≠ .cyclicTrigger cycle) :
    ReportsNoCycle (.error cause : Except RuleError α) := fun cycle heq =>
  h cycle (Except.error.inj heq)

theorem bind {α β : Type} {x : Except RuleError α} {f : α → Except RuleError β}
    (hx : ReportsNoCycle x) (hf : ∀ a, ReportsNoCycle (f a)) : ReportsNoCycle (x >>= f) := by
  intro cycle h
  rcases eq_error_of_bind h with h | ⟨a, -, h⟩
  · exact hx cycle h
  · exact hf a cycle h

theorem map {α β : Type} {x : Except RuleError α} (hx : ReportsNoCycle x) (f : α → β) :
    ReportsNoCycle (x.map f) := by
  intro cycle h
  cases x with
  | error e => exact hx cycle (congrArg _ (Except.error.inj h))
  | ok a => cases h

theorem dedupe (kept rules : List Rule) : ReportsNoCycle (RuleDraft.dedupe kept rules) := by
  induction rules generalizing kept with
  | nil => exact ok _
  | cons r rest ih =>
    rw [RuleDraft.dedupe]
    split
    · split
      · exact ih kept
      · exact error (by simp)
    · exact ih _

theorem checkKnown (rules : List Rule) (ids : List String) (context : String) :
    ReportsNoCycle (RuleDraft.checkKnown rules ids context) := by
  unfold RuleDraft.checkKnown
  split
  · exact error (by simp)
  · exact ok _

theorem checkExample (r : Rule) (index : Nat) (e : Example) :
    ReportsNoCycle (r.checkExample index e) := by
  unfold Rule.checkExample
  dsimp only
  split
  · exact error (by simp)
  · split
    · exact error (by simp)
    · exact ok _

theorem checkExamples (r : Rule) : ReportsNoCycle r.checkExamples := by
  have hfrom (es : List Example) (i : Nat) : ReportsNoCycle (r.checkExamplesFrom i es) := by
    induction es generalizing i with
    | nil => exact ok _
    | cons e es ih => exact (checkExample r i e).bind fun _ => ih (i + 1)
  unfold Rule.checkExamples
  split
  · exact hfrom _ _
  · exact ok _

theorem forM_checkExamples (rules : List Rule) :
    ReportsNoCycle (rules.forM Rule.checkExamples) := by
  induction rules with
  | nil => exact ok _
  | cons r rest ih => exact (checkExamples r).bind fun _ => ih

theorem withOverride (r : Rule) (o : Override) : ReportsNoCycle (r.withOverride o) := by
  unfold Rule.withOverride
  split
  · exact error (by simp)
  · refine bind ?_ fun _ => ok _
    unfold Template.check
    dsimp only
    split
    · exact error (by simp)
    · split
      · exact error (by simp)
      · exact ok _

theorem overrideIn (id : String) (o : Override) (rules : List Rule) :
    ReportsNoCycle (RuleDraft.overrideIn id o rules) := by
  induction rules with
  | nil => exact ok _
  | cons r rest ih =>
    rw [RuleDraft.overrideIn]
    split
    · exact (withOverride r o).map _
    · exact ih.map _

theorem attachAll (inactive active : List Rule) (given : List (String × Override)) :
    ReportsNoCycle (RuleDraft.attachAll inactive active given) := by
  induction given generalizing active with
  | nil => exact ok _
  | cons e rest ih =>
    rw [RuleDraft.attachAll]
    split
    · exact (overrideIn _ _ active).bind fun _ => ih _
    · split
      · exact ih active
      · exact error (by simp)

theorem prepared (d : RuleDraft) : ReportsNoCycle d.prepared :=
  (dedupe _ _).bind fun rules =>
    (checkKnown rules d.enable _).bind fun _ =>
      (checkKnown rules d.disable _).bind fun _ =>
        (forM_checkExamples _).bind fun _ => attachAll _ _ _

end ReportsNoCycle

/-- Only the cycle check of the selection reports a cycle. -/
theorem RuleDraft.check_of_build_eq_error {d : RuleDraft} {cycle : List String}
    (h : d.build = .error (.cyclicTrigger cycle)) :
    Cycle.check d.selection = .error (.cyclicTrigger cycle) := by
  rw [build_eq_prepared] at h
  rcases eq_error_of_bind h with h | ⟨rules, hrules, h⟩
  · exact absurd h (ReportsNoCycle.prepared d cycle)
  · rcases eq_error_of_bind h with h | ⟨-, -, h⟩
    · rwa [← (prepared_eq_ok hrules).1]
    · cases h

/-- A reported cycle is a chain that starts from what its first rule is known to produce and changes
the text at every step. Some id comes twice in it: the chain comes back to the origin, or one of its
rules fires three times. So rules whose chains do neither, as far as the check follows them, are
never refused for a cycle. -/
theorem RuleDraft.reported_cycle_repeats (d : RuleDraft) :
    let fixers := d.selection.filter (·.isFix)
    (fixers.map (·.id)).Nodup ∧
    (∀ cycle, d.build = .error (.cyclicTrigger cycle) →
      ∃ origin ∈ fixers, ∃ seed,
        ((∃ e ∈ origin.examples, e.expected.toList = seed) ∨ seed ∈ origin.literalOutputs) ∧
        ∃ chain, (∀ r ∈ chain, r ∈ fixers) ∧ cycle = origin.id :: chain.map (·.id) ∧
          Cycle.Chain seed chain ∧ (∃ id, 2 ≤ cycle.count id) ∧
          ((∃ r ∈ chain, r.id = origin.id) ∨ ∃ r ∈ fixers, 3 ≤ (chain.map (·.id)).count r.id)) ∧
    ((∀ origin ∈ fixers, ∀ seed ∈ Cycle.seeds origin,
        let fired := (Cycle.firings fixers (2 * fixers.length + 2) seed).map (·.id)
        origin.id ∉ fired ∧ ∀ r ∈ fixers, fired.count r.id ≤ 2) →
      ∀ cycle, d.build ≠ .error (.cyclicTrigger cycle)) := by
  intro fixers
  refine ⟨d.nodup_ids_selection.sublist (List.filter_sublist.map _), fun cycle h => ?_,
    fun hfired cycle h => ?_⟩
  · obtain ⟨origin, horigin, seed, hseed, chain, hfront, rfl, hend⟩ :=
      Cycle.check_eq_error (check_of_build_eq_error h)
    refine ⟨origin, horigin, seed, Cycle.mem_seeds.1 hseed, chain,
      fun r hr => Cycle.mem_of_mem_firings (hfront.subset hr), rfl,
      Cycle.chain_of_prefix hfront (Cycle.chain_firings _ _ _), ?_, hend⟩
    rcases hend with ⟨r, hr, hid⟩ | ⟨r, -, hcount⟩
    · have hpos := List.count_pos_iff.2 (List.mem_map.2 ⟨r, hr, hid⟩)
      exact ⟨origin.id, by rw [List.count_cons_self]; exact Nat.succ_le_succ hpos⟩
    · have hmore := (List.sublist_cons_self origin.id (chain.map (·.id))).count_le r.id
      exact ⟨r.id, by omega⟩
  · obtain ⟨origin, horigin, seed, hseed, chain, hfront, rfl, hend⟩ :=
      Cycle.check_eq_error (check_of_build_eq_error h)
    obtain ⟨haway, htwice⟩ := hfired origin horigin seed hseed
    have hids := hfront.sublist.map (·.id)
    rcases hend with ⟨r, hr, hid⟩ | ⟨r, hr, hcount⟩
    · exact haway (hids.subset (List.mem_map.2 ⟨r, hr, hid⟩))
    · have hfew := (hids.count_le r.id).trans (htwice r hr)
      omega

/-- Nothing feeds the first rule, but what it produces goes to and fro between the others. -/
def swingingDraft : RuleDraft where
  rules := [letterRule "start" 'x' 'a', letterRule "there" 'a' 'b', letterRule "back" 'b' 'a']

/-- The swinging rules are refused, and the chain of rules that comes to rest is not. -/
theorem reported_cycle_repeats_swinging :
    let cycle := "start" :: (List.replicate 8 ["there", "back"]).flatten
    swingingDraft.build = .error (.cyclicTrigger cycle) ∧
    (∃ origin ∈ swingingDraft.selection, ∃ seed, ∃ chain,
      cycle = origin.id :: chain.map (·.id) ∧ Cycle.Chain seed chain ∧ ∃ id, 2 ≤ cycle.count id) ∧
    ∀ cycle, RuleDraft.build { rules := chainRules } ≠ .error (.cyclicTrigger cycle) := by
  intro cycle
  have hbuild : swingingDraft.build = .error (.cyclicTrigger cycle) := by
    have hcause : swingingDraft.build.map (fun _ => ()) = .error (.cyclicTrigger cycle) := by
      decide +kernel
    cases hs : swingingDraft.build with
    | error cause =>
      rw [hs] at hcause
      exact congrArg _ (Except.error.inj hcause)
    | ok s =>
      rw [hs] at hcause
      contradiction
  obtain ⟨-, hreported, -⟩ := swingingDraft.reported_cycle_repeats
  obtain ⟨-, -, haccepted⟩ := RuleDraft.reported_cycle_repeats { rules := chainRules }
  obtain ⟨origin, horigin, seed, -, chain, -, hcycle, hchain, htwice, -⟩ := hreported _ hbuild
  exact ⟨hbuild, ⟨origin, (List.mem_filter.1 horigin).1, seed, chain, hcycle, hchain, htwice⟩,
    haccepted (by decide +kernel)⟩

end SourceMend
