import SourceMend.Proofs.Repair.Orbit
import SourceMend.Proofs.Report.Totals
import SourceMend.Proofs.RuleSet.Cycles
import SourceMend.Proofs.Run.Fingerprints

/-!
The totals of a run. Only rules of the set fire, so each of the fires by rule is counted in the
category of its rule, and none is lost.
-/
namespace SourceMend

/-! Who fires -/

namespace RuleSet

variable {rules : RuleSet} {ctx : Context} {text : Text} {id : String}

theorem has_foldl_passStep {rs : List Rule} {st : PassState} (hst : st.Current ctx)
    (h : (rs.foldl (passStep ctx) st).fires.Has id) : st.fires.Has id ∨ ∃ r ∈ rs, r.id = id := by
  induction rs generalizing st with
  | nil => exact .inl h
  | cons r rs ih =>
    rcases ih (passStep_current hst r).2 h with hstep | ⟨q, hq, hid⟩
    · rw [passStep_fires hst] at hstep
      split at hstep
      · rcases (Tally.has_add _ _ _ _).1 hstep with rfl | hold
        · exact .inr ⟨r, List.mem_cons_self, rfl⟩
        · exact .inl hold
      · exact .inl hstep
    · exact .inr ⟨q, List.mem_cons_of_mem r hq, hid⟩

theorem mem_rules_of_has_applyPass (h : (rules.applyPass text ctx).fires.Has id) :
    ∃ r ∈ rules.rules, r.id = id := by
  rcases has_foldl_passStep (PassState.current_start ctx text) h with hstart | ⟨r, hr, hid⟩
  · exact absurd hstart (Tally.not_has_empty id)
  · exact ⟨r, List.mem_of_mem_filter hr, hid⟩

theorem mem_rules_of_has_repair {maxPasses : UInt32}
    (h : (rules.repair maxPasses text ctx).fires.Has id) : ∃ r ∈ rules.rules, r.id = id := by
  obtain ⟨n, hn⟩ : ∃ n, (rules.repair maxPasses text ctx).fires = rules.firesOf ctx text n := by
    have hending := rules.repair_ending maxPasses text ctx
    generalize rules.repair maxPasses text ctx = out at hending ⊢
    cases hending <;> exact ⟨_, rfl⟩
  rw [hn] at h
  obtain ⟨k, -, hk⟩ := (rules.has_firesOf ctx text n id).1 h
  exact mem_rules_of_has_applyPass hk

end RuleSet

theorem FileResult.Made.mem_rules_of_has {settings : Settings} {rules : RuleSet}
    {interfere : String → Disk → Disk} {d : Disk} {src : SourceFile} {res : FileResult}
    (h : res.Made settings rules interfere d src) {id : String} (hid : res.outcome.fires.Has id) :
    ∃ r ∈ rules.rules, r.id = id := by
  rcases h with rfl | ⟨device, temp, rfl⟩
  · exact absurd hid (Tally.not_has_empty id)
  unfold Disk.mend at hid
  split at hid
  · exact absurd hid (Tally.not_has_empty id)
  next record _ =>
    -- Whatever becomes of the commit, the fires are those of the repair.
    have hrepair : (rules.repair settings.maxPasses record.content
        (Context.ofPath src.display)).fires.Has id := by
      dsimp only at hid
      split at hid
      · unfold FilePlan.afterCommit at hid
        split at hid <;> exact hid
      · exact hid
    exact RuleSet.mem_rules_of_has_repair hrepair

/-- Only rules of the set fire in a run. -/
theorem runRepair_fires {settings : Settings} {rules : RuleSet} {tool : ToolInfo}
    {around : Surroundings} {d d' : Disk} {report : Report}
    (h : runRepair settings rules tool around d = (.ok report, d')) :
    report.finalize = report ∧
      report.firesByCategory = Run.firesByCategory rules report.firesByRule ∧
      ∀ id, report.firesByRule.Has id → ∃ r ∈ rules.rules, r.id = id := by
  obtain ⟨run, hstart, -, -⟩ := runRepair_eq_ok h
  obtain ⟨results, hlength, rfl, hmade⟩ := runRepair_made hstart h
  obtain ⟨rfl, rfl, -, -, -⟩ := Run.start_eq_ok hstart
  refine ⟨rfl, rfl, fun id hid => ?_⟩
  obtain ⟨file, hfile, hhas⟩ := (Report.has_totalFires _ id).1 hid
  obtain ⟨res, hres, rfl⟩ := List.mem_map.1 hfile
  rw [← List.map_snd_zip hlength.le] at hres
  obtain ⟨e, he, rfl⟩ := List.mem_map.1 hres
  obtain ⟨_, -, hmade⟩ := hmade e he
  exact hmade.mem_rules_of_has hhas

/-! Fires by category -/

/-- The category under which fires of this id are counted. -/
def RuleSet.categoryOf (rules : RuleSet) (id : String) : String :=
  (rules.categoryOf? id).getD "unknown"

theorem RuleSet.categoryOf_id {rules : RuleSet} (hids : (rules.rules.map (·.id)).Nodup) {r : Rule}
    (hr : r ∈ rules.rules) : rules.categoryOf r.id = r.category := by
  unfold categoryOf categoryOf? get?
  cases hfind : rules.rules.find? (·.id = r.id) with
  | none => simpa using List.find?_eq_none.1 hfind r hr
  | some q =>
    have hid : q.id = r.id := by simpa using List.find?_some hfind
    rw [List.inj_on_of_nodup_map hids (List.mem_of_find?_eq_some hfind) hr hid]
    rfl

/-- The fires by category tell of the fires by rule. -/
structure Report.Categorized (report : Report) (rules : RuleSet) : Prop where
  listed : ∀ category, report.firesByCategory.Has category ↔
    ∃ r ∈ rules.rules, r.category = category ∧ report.firesByRule.Has r.id
  fires : report.firesByRule.total < UInt64.size → ∀ category,
    (report.firesByCategory.count category).toNat =
      ((rules.rules.filter (·.category = category)).map fun r =>
        (report.firesByRule.count r.id).toNat).sum
  total : report.firesByRule.total < UInt64.size →
    report.firesByCategory.total = report.firesByRule.total

namespace Run

variable {rules : RuleSet} {fires : Tally}

theorem firesByCategory_eq (rules : RuleSet) (fires : Tally) : firesByCategory rules fires =
    (fires.entries.map fun e => (rules.categoryOf e.1, e.2)).foldl (fun t (key, n) => t.add key n)
      Tally.empty := by
  rw [List.foldl_map]
  rfl

theorem has_firesByCategory (hids : (rules.rules.map (·.id)).Nodup)
    (hrules : ∀ id, fires.Has id → ∃ r ∈ rules.rules, r.id = id) (category : String) :
    (firesByCategory rules fires).Has category ↔
      ∃ r ∈ rules.rules, r.category = category ∧ fires.Has r.id := by
  rw [firesByCategory_eq, Tally.has_foldl_add, or_iff_right (Tally.not_has_empty category)]
  simp only [List.mem_map, exists_exists_and_eq_and]
  constructor
  · rintro ⟨e, he, rfl⟩
    have hhas : fires.Has e.1 := Tally.has_iff.2 (List.mem_map_of_mem he)
    obtain ⟨r, hr, hid⟩ := hrules e.1 hhas
    exact ⟨r, hr, by rw [← RuleSet.categoryOf_id hids hr, hid], hid ▸ hhas⟩
  · rintro ⟨r, hr, rfl, hhas⟩
    obtain ⟨e, he, hid⟩ := List.mem_map.1 (Tally.has_iff.1 hhas)
    exact ⟨e, he, by rw [hid, RuleSet.categoryOf_id hids hr]⟩

theorem count_firesByCategory (hids : (rules.rules.map (·.id)).Nodup)
    (hrules : ∀ id, fires.Has id → ∃ r ∈ rules.rules, r.id = id)
    (hfits : fires.total < UInt64.size) (category : String) :
    ((firesByCategory rules fires).count category).toNat =
      ((rules.rules.filter (·.category = category)).map fun r =>
        (fires.count r.id).toNat).sum := by
  -- What an entry adds to the category.
  let part (id : String) (n : Nat) : Nat := if category = rules.categoryOf id then n else 0
  have hentries : (fires.entries.map fun e : String × UInt64 =>
        (if category = rules.categoryOf e.1 then e.2 else 0).toNat) =
      fires.entries.map fun e => part e.1 e.2.toNat :=
    List.map_congr_left fun e _ => apply_ite UInt64.toNat _ _ _
  have hle : (fires.entries.map fun e => part e.1 e.2.toNat).sum ≤ fires.total :=
    List.sum_le_sum fun e _ => by
      dsimp only [part]
      split <;> omega
  have hnames : ∀ id, fires.Has id → id ∈ rules.rules.map (·.id) :=
    fun id hid => List.mem_map.2 (hrules id hid)
  calc ((firesByCategory rules fires).count category).toNat
    _ = (fires.entries.map fun e : String × UInt64 =>
          if category = rules.categoryOf e.1 then e.2 else 0).sum.toNat := by
      rw [firesByCategory_eq, Tally.count_foldl_add, List.map_map]
      exact congrArg UInt64.toNat (UInt64.zero_add _)
    _ = (fires.entries.map fun e => part e.1 e.2.toNat).sum := by
      rw [Tally.toNat_sum, List.map_map]
      · exact congrArg List.sum hentries
      · rw [List.map_map]
        exact hentries ▸ Nat.lt_of_le_of_lt hle hfits
    _ = ((rules.rules.map (·.id)).map fun id => part id (fires.count id).toNat).sum :=
      Tally.sum_entries_eq_sum_names hids hnames fun id => by simp [part]
    _ = (rules.rules.map fun r =>
          if r.category = category then (fires.count r.id).toNat else 0).sum := by
      rw [List.map_map]
      refine congrArg List.sum (List.map_congr_left fun r hr => ?_)
      simp only [Function.comp_apply, part, RuleSet.categoryOf_id hids hr, eq_comm]
    _ = _ := by
      rw [List.sum_map_ite]
      simp

theorem total_firesByCategory (rules : RuleSet) (hfits : fires.total < UInt64.size) :
    (firesByCategory rules fires).total = fires.total := by
  have hempty : Tally.empty.total = 0 := rfl
  have hvalues : ((fires.entries.map fun e => (rules.categoryOf e.1, e.2)).map
      (·.2.toNat)).sum = fires.total := by
    rw [List.map_map]
    rfl
  rw [firesByCategory_eq, Tally.total_foldl_add (by rw [hempty, hvalues]; omega), hempty, hvalues,
    Nat.zero_add]

end Run

/-- A report tells one story. Its totals are those of its files and findings in any order, and it
fails exactly when it is not clean. In a run with a rule set that was built, each rule is counted in
its own category, and no category comes up that no rule has. -/
theorem Report.totals_agree :
    (∀ r : Report, r.finalize.files = r.files ∧ r.finalize.findings = r.findings ∧
      (r.Fits → r.finalize.Balanced) ∧
      (r.finalize.isClean = true ↔ r.finalize.verdict.status ≠ .fail) ∧
      r.finalize.finalize = r.finalize) ∧
    (∀ r s : Report, r.files.Perm s.files → r.findings.Perm s.findings →
      r.skipped.Perm s.skipped →
      r.finalize.summary = s.finalize.summary ∧ r.finalize.verdict = s.finalize.verdict ∧
        r.finalize.firesByRule = s.finalize.firesByRule) ∧
    ∀ (draft : RuleDraft) (rules : RuleSet) (settings : Settings) (tool : ToolInfo)
      (around : Surroundings) (d d' : Disk) (report : Report),
      draft.build = .ok rules → runRepair settings rules tool around d = (.ok report, d') →
      report.finalize = report ∧ report.Categorized rules ∧
        (report.firesByCategory.Has "unknown" → ∃ r ∈ rules.rules, r.category = "unknown") := by
  refine ⟨fun r => ⟨rfl, rfl, balanced_finalize, r.isClean_finalize, r.finalize_finalize⟩, ?order,
    ?run⟩
  case order =>
    intro r s hfiles hfindings hskipped
    obtain ⟨hsummary, hverdict, hfires, -⟩ := finalize_perm hfiles hfindings hskipped
    exact ⟨hsummary, hverdict, hfires⟩
  case run =>
    intro draft rules settings tool around d d' report hbuild hrun
    have hids := RuleDraft.nodup_ids_build hbuild
    obtain ⟨hfinal, hcategory, hrules⟩ := runRepair_fires hrun
    have hcategorized : report.Categorized rules := by
      constructor <;> rw [hcategory]
      case listed => exact Run.has_firesByCategory hids hrules
      case fires => exact fun hfits => Run.count_firesByCategory hids hrules hfits
      case total => exact fun hfits => Run.total_firesByCategory rules hfits
    refine ⟨hfinal, hcategorized, fun hunknown => ?_⟩
    obtain ⟨r, hr, hname, -⟩ := (hcategorized.listed "unknown").1 hunknown
    exact ⟨r, hr, hname⟩

/-- The first rule makes more of the letter that the second one takes. -/
def mergingRules : List Rule := [letterRule "first" 'a' 'b', letterRule "second" 'b' 'c']

def mergingDisk : Disk where
  entries := [(["x.ts"], .file "ab".toUTF8), (["y.ts"], .file "b".toUTF8)]

def mergingSettings : Settings := { roots := ["x.ts", "y.ts"], dryRun := true }

/-- One `a` and three times a `b`, all in rules of one category. -/
theorem Report.totals_agree_merging :
    RuleDraft.build { rules := mergingRules } = .ok ⟨1, mergingRules⟩ ∧
    ∃ report d', runRepair mergingSettings ⟨1, mergingRules⟩ { name := "syntaxfix" } {}
        mergingDisk = (.ok report, d') ∧
      report.Fits ∧ report.Balanced ∧ report.isClean = true ∧ report.verdict.status ≠ .fail ∧
      (report.firesByRule.count "first").toNat = 1 ∧
      (report.firesByRule.count "second").toNat = 3 ∧
      (report.firesByCategory.count "demo").toNat = 4 ∧
      report.firesByCategory.total = 4 ∧ ¬ report.firesByCategory.Has "unknown" ∧
      { report with files := report.files.reverse }.finalize.summary = report.summary := by
  have hbuild : RuleDraft.build { rules := mergingRules } = .ok ⟨1, mergingRules⟩ :=
    RuleDraft.build_eq (by decide) rfl rfl rfl rfl (by decide +kernel) (by decide +kernel)
  have hentries : (runRepair mergingSettings ⟨1, mergingRules⟩ { name := "syntaxfix" } {}
      mergingDisk).1.toOption.map (fun report => (report.firesByRule.entries,
        report.files.length, report.findings.length, report.fired, report.isClean)) =
      some ([("first", 1), ("second", 3)], 2, 0, 4, true) := by
    decide +kernel
  obtain ⟨hreport, horder, hruns⟩ := Report.totals_agree
  obtain ⟨⟨outcome, d'⟩, hrun⟩ : ∃ out, runRepair mergingSettings ⟨1, mergingRules⟩
    { name := "syntaxfix" } {} mergingDisk = out := ⟨_, rfl⟩
  rw [hrun] at hentries
  cases outcome with
  | error cause => contradiction
  | ok report =>
    simp only [Except.toOption, Option.map_some, Option.some.injEq, Prod.mk.injEq] at hentries
    obtain ⟨hfires, hfiles, hfindings, hfired, hclean⟩ := hentries
    obtain ⟨hfinal, hcategorized, hunknown⟩ := hruns _ _ _ _ _ _ _ _ hbuild hrun
    have hfits : report.Fits := ⟨by rw [hfiles]; decide, by rw [hfindings]; decide,
      by rw [hfired]; decide⟩
    obtain ⟨-, -, hbalanced, hverdict, -⟩ := hreport report
    rw [hfinal] at hbalanced hverdict
    have htotal : report.firesByRule.total = 4 := (hbalanced hfits).total.trans hfired
    have hlow : report.firesByRule.total < UInt64.size := by rw [htotal]; decide
    have hfirst : report.firesByRule.count "first" = 1 := by
      rw [Tally.count, Tally.get?, hfires]
      rfl
    have hsecond : report.firesByRule.count "second" = 3 := by
      rw [Tally.count, Tally.get?, hfires]
      rfl
    have hdemo : (report.firesByCategory.count "demo").toNat = 4 := by
      rw [hcategorized.fires hlow "demo"]
      simp [mergingRules, letterRule, hfirst, hsecond]
    obtain ⟨hsummary, -, -⟩ := horder { report with files := report.files.reverse } report
      (List.reverse_perm _) (.refl _) (.refl _)
    rw [hfinal] at hsummary
    refine ⟨hbuild, report, d', hrun, hfits, hbalanced hfits, hclean, hverdict.1 hclean,
      by rw [hfirst]; rfl, by rw [hsecond]; rfl, hdemo, (hcategorized.total hlow).trans htotal,
      fun h => ?_, hsummary⟩
    obtain ⟨r, hr, hname⟩ := hunknown h
    simp only [mergingRules, List.mem_cons, List.not_mem_nil, or_false] at hr
    rcases hr with rfl | rfl <;> simp [letterRule] at hname

end SourceMend
