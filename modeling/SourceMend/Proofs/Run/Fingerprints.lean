import SourceMend.Proofs.RuleSet.Order
import SourceMend.Proofs.Run.Truth

/-!
The names of the findings of a run. A result is that of work on the disk as it was when the turn of
the file came, so its findings are those of a validation of the text that the file was to have,
whatever others do meanwhile. Findings of one file differ in their ids or places, and those of
different files in their paths; the names tell all of them apart, except for findings whose ids and
paths are the same text once they are joined by a slash.
-/
namespace SourceMend

/-- A result is a cancellation, or comes from work on a file of the disk. -/
def FileResult.Made (settings : Settings) (rules : RuleSet) (interfere : String → Disk → Disk)
    (d : Disk) (src : SourceFile) (res : FileResult) : Prop :=
  res = cancelled src ∨
    ∃ (device : Device) (id : String), res = (d.mend settings rules device id interfere src).1

namespace Run

/-- The disk as it is when the turn of a file comes. -/
def Meets (run : Run) (around : Surroundings) (src : SourceFile) (d : Disk) : Prop :=
  ∃ n : Nat, run.todo[n]? = some src ∧ (run.steps around n).disk = d

/-- The text that a run is to leave in the file shown on this path has too many characters for a
word, so that lines and columns come round. -/
def Overlong (run : Run) (around : Surroundings) (path : String) : Prop :=
  ∃ src d content, run.Meets around src d ∧ src.display = path ∧
    d.readText src.path = .ok content ∧
    UInt64.size ≤ (src.plan run.settings run.rules content).final.length

theorem step_made {run : Run} {src : SourceFile} {rest : List SourceFile}
    (htodo : run.todo = src :: rest) (device : Device) (id : String)
    (interfere : String → Disk → Disk) (stopped : Bool) :
    ∃ res disk, run.step device id interfere stopped =
        { run with todo := rest, results := run.results ++ [res], disk } ∧
      res.Made run.settings run.rules interfere run.disk src := by
  unfold step
  rw [htodo]
  cases stopped with
  | true => exact ⟨_, run.disk, rfl, .inl rfl⟩
  | false => exact ⟨_, _, rfl, .inr ⟨device, id, rfl⟩⟩

/-- Every file of a run gets one result, whatever happens on the disk. -/
theorem steps_made (around : Surroundings) (run : Run) :
    ∃ results disk, run.steps around run.todo.length =
        { run with todo := [], results := run.results ++ results, disk } ∧
      results.length = run.todo.length ∧
      ∀ e ∈ run.todo.zip results, ∃ d, run.Meets around e.1 d ∧
        e.2.Made run.settings run.rules around.interfere d e.1 := by
  obtain ⟨todo, htodo⟩ : ∃ todo, run.todo = todo := ⟨_, rfl⟩
  rw [htodo]
  induction todo generalizing run with
  | nil =>
    refine ⟨[], run.disk, ?_, rfl, by simp⟩
    rw [List.length_nil, steps, List.append_nil, ← htodo]
  | cons src rest ih =>
    obtain ⟨res, disk, hstep, hmade⟩ := step_made htodo (around.device run.results.length)
      (around.tempId run.results.length) around.interfere (run.isStopped around)
    obtain ⟨results, last, hsteps, hlength, hrest⟩ :=
      ih { run with todo := rest, results := run.results ++ [res], disk } rfl
    refine ⟨res :: results, last, ?_, by simp [hlength], List.forall_mem_cons.2 ⟨?_, ?_⟩⟩
    · rw [List.length_cons, steps, hstep, hsteps]
      simp
    · exact ⟨run.disk, ⟨0, by rw [htodo]; rfl, rfl⟩, hmade⟩
    · intro e he
      obtain ⟨d, ⟨n, hn, hd⟩, hmade⟩ := hrest e he
      refine ⟨d, ⟨n + 1, by rw [htodo]; exact hn, ?_⟩, hmade⟩
      rw [steps, hstep]
      exact hd

end Run

section
variable {settings : Settings} {rules : RuleSet} {interfere : String → Disk → Disk} {d : Disk}
  {src : SourceFile} {res : FileResult}

/-- The findings of a result are those of the text that its file is to have, or there are none. -/
theorem FileResult.Made.findings_cases (h : res.Made settings rules interfere d src) :
    res.findings = [] ∨ ∃ content, d.readText src.path = .ok content ∧
      res.findings = rules.validate src.display (src.plan settings rules content).final
        (Dialect.ofPath src.display) := by
  rcases h with rfl | ⟨device, id, rfl⟩
  · exact .inl rfl
  unfold Disk.mend Disk.readRecord
  cases d.readText src.path with
  | error fault => exact .inl rfl
  | ok content =>
    dsimp only [Except.map]
    split
    · unfold FilePlan.afterCommit
      split
      · exact .inr ⟨content, rfl, rfl⟩
      · exact .inl rfl
    · exact .inr ⟨content, rfl, rfl⟩

/-- What a run finds in a file is about that file. -/
theorem FileResult.Made.path_of_mem_findings (h : res.Made settings rules interfere d src)
    {f : Finding} (hf : f ∈ res.findings) : f.path = src.display := by
  rcases h.findings_cases with hnone | ⟨content, -, hcontent⟩
  · rw [hnone] at hf
    contradiction
  · exact RuleSet.path_of_mem_validate (hcontent ▸ hf)

end

/-- A report is that of a run in which every file has got its result. -/
theorem runRepair_made {settings : Settings} {rules : RuleSet} {tool : ToolInfo}
    {around : Surroundings} {d d' : Disk} {run : Run} {report : Report}
    (hstart : Run.start settings rules d = .ok run)
    (h : runRepair settings rules tool around d = (.ok report, d')) :
    ∃ results, results.length = run.todo.length ∧
      report = ({ run with todo := [], results, disk := d' } : Run).report tool around ∧
      ∀ e ∈ run.todo.zip results, ∃ d, run.Meets around e.1 d ∧
        e.2.Made run.settings run.rules around.interfere d e.1 := by
  obtain ⟨run', hstart', hreport, hdisk⟩ := runRepair_eq_ok h
  obtain rfl := Except.ok.inj (hstart'.symm.trans hstart)
  obtain ⟨-, -, -, hresults, -⟩ := Run.start_eq_ok hstart
  obtain ⟨results, disk, hsteps, hlength, hmade⟩ := Run.steps_made around run'
  rw [hsteps, hresults, List.nil_append] at hreport
  rw [hsteps] at hdisk
  exact ⟨results, hlength, by rw [hreport, hdisk], hmade⟩

/-- With a rule set that was built, no two findings of a run in one file have the same name, and two
findings have it exactly if they are at the same place and the id of one goes on with a slash and a
folder in which the file of the other lies. This leaves out two findings in one file if the text
that the run is to leave in it has too many characters for a word. -/
theorem runRepair_fingerprints {draft : RuleDraft} {rules : RuleSet}
    (hrules : draft.build = .ok rules) {settings : Settings} {tool : ToolInfo}
    {around : Surroundings} {d d' : Disk} {run : Run} {report : Report}
    (hstart : Run.start settings rules d = .ok run)
    (h : runRepair settings rules tool around d = (.ok report, d')) :
    report.findings.Pairwise fun f g =>
      ((f.path = g.path → f.fingerprint ≠ g.fingerprint) ∧
        (f.fingerprint = g.fingerprint ↔
          f.location = g.location ∧ (f.Shifted g ∨ g.Shifted f))) ∨
      f.path = g.path ∧ run.Overlong around f.path := by
  obtain ⟨results, hlength, rfl, hmade⟩ := runRepair_made hstart h
  obtain ⟨rfl, rfl, htodo, -, -⟩ := Run.start_eq_ok hstart
  have hdisplay := Run.pairwise_display_sources run.settings d
  rw [← htodo] at hdisplay
  change (results.flatMap (·.findings)).Pairwise _
  rw [← flatMap_zip_snd hlength, List.pairwise_flatMap]
  constructor
  · intro e he
    obtain ⟨seen, hmeets, hmade⟩ := hmade e he
    rcases hmade.findings_cases with hnone | ⟨content, hread, hcontent⟩
    · rw [hnone]
      exact .nil
    rw [hcontent]
    have hpath {f : Finding} (hf : f ∈ run.rules.validate e.1.display
        (e.1.plan run.settings run.rules content).final (Dialect.ofPath e.1.display)) :
        f.path = e.1.display := RuleSet.path_of_mem_validate hf
    by_cases hsize : (e.1.plan run.settings run.rules content).final.length < UInt64.size
    · have hids := RuleDraft.nodup_ids_build hrules
      refine (List.Pairwise.and_mem.1 (RuleSet.pairwise_validate hids hsize _ _)).imp ?_
      rintro f g ⟨hf, hg, hne⟩
      have hname := Finding.fingerprint_eq_iff_shifted fun hplace hsame => hne hsame.1 hplace
      refine .inl ⟨fun hsame heq => ?_, hname⟩
      obtain ⟨hplace, hshifted⟩ := hname.1 heq
      exact Finding.not_shifted_of_path_eq hsame hshifted
    · refine List.pairwise_of_forall_mem_list fun f hf g hg => .inr ⟨?_, ?_⟩
      · rw [hpath hf, hpath hg]
      · exact ⟨e.1, seen, content, hmeets, (hpath hf).symm, hread, Nat.le_of_not_lt hsize⟩
  · refine (List.Pairwise.and_mem.1 (pairwise_zip hlength hdisplay)).imp ?_
    rintro a b ⟨ha, hb, hne⟩ f hf g hg
    obtain ⟨_, -, hfirst⟩ := hmade a ha
    obtain ⟨_, -, hsecond⟩ := hmade b hb
    have hapart : f.path ≠ g.path := by
      rwa [hfirst.path_of_mem_findings hf, hsecond.path_of_mem_findings hg]
    exact .inl ⟨fun hsame => absurd hsame hapart,
      Finding.fingerprint_eq_iff_shifted fun _ hsame => hapart hsame.2⟩

/-- Looks for one letter. -/
def finderRule (id : String) (c : Char) : Rule where
  id
  category := "demo"
  pattern := { source := String.singleton c, node := .literal [c], groupNames := [none] }

/-- The id of the second rule looks like the id of the first one and a folder. -/
def nestedRules : RuleSet := ⟨1, [finderRule "a" 'x', finderRule "a/b" 'y']⟩

theorem build_nestedRules : RuleDraft.build { rules := nestedRules.rules } = .ok nestedRules :=
  RuleDraft.build_eq (by decide) rfl rfl rfl rfl (by simp [finderRule, Rule.isFix])
    (by decide +kernel)

/-- A file in a folder, and one of the same name beside the folder. -/
def nestedDisk : Disk where
  entries := [(["b"], .directory), (["b", "f.ts"], .file (Text.bytes ['x'])),
    (["f.ts"], .file (Text.bytes ['y']))]

def nestedSettings : Settings := { roots := ["b/f.ts", "f.ts"] }

/-- Each of the rules finds its letter, in the first place of a file. -/
theorem exists_nestedRun : ∃ report d',
    runRepair nestedSettings nestedRules { name := "syntaxfix" } {} nestedDisk =
        (.ok report, d') ∧
      report.findings.map (fun f => (f.ruleId, f.path, f.fingerprint)) =
        [("a", "b/f.ts", "a/b/f.ts:1:1"), ("a/b", "f.ts", "a/b/f.ts:1:1")] := by
  have hfindings : (runRepair nestedSettings nestedRules { name := "syntaxfix" } {}
      nestedDisk).1.toOption.map (fun report => report.findings.map fun f =>
        (f.ruleId, f.path, f.fingerprint)) =
      some [("a", "b/f.ts", "a/b/f.ts:1:1"), ("a/b", "f.ts", "a/b/f.ts:1:1")] := by
    decide +kernel
  obtain ⟨⟨outcome, d'⟩, hrun⟩ : ∃ out,
    runRepair nestedSettings nestedRules { name := "syntaxfix" } {} nestedDisk = out := ⟨_, rfl⟩
  rw [hrun] at hfindings
  cases outcome with
  | error cause => contradiction
  | ok report => exact ⟨report, d', hrun, Option.some.inj hfindings⟩

/-- Two findings in two files, and one of them is shifted. -/
theorem runRepair_fingerprints_nested :
    RuleDraft.build { rules := nestedRules.rules } = .ok nestedRules ∧
    ∃ run report d', Run.start nestedSettings nestedRules nestedDisk = .ok run ∧
      runRepair nestedSettings nestedRules { name := "syntaxfix" } {} nestedDisk =
        (.ok report, d') ∧
      ∃ f g, report.findings = [f, g] ∧ f.path ≠ g.path ∧ f.location = g.location ∧
        (f.Shifted g ∨ g.Shifted f) := by
  obtain ⟨report, d', hrun, hfindings⟩ := exists_nestedRun
  obtain ⟨run, hstart, -, -⟩ := runRepair_eq_ok hrun
  have hnames := runRepair_fingerprints build_nestedRules hstart hrun
  obtain ⟨f, rest, hsplit, hf, hrest⟩ := List.map_eq_cons_iff.1 hfindings
  obtain ⟨g, rest', rfl, hg, hnone⟩ := List.map_eq_cons_iff.1 hrest
  obtain rfl := List.map_eq_nil_iff.1 hnone
  simp only [Prod.mk.injEq] at hf hg
  have hapart : f.path ≠ g.path := by
    rw [hf.2.1, hg.2.1]
    decide
  refine ⟨build_nestedRules, run, report, d', hstart, hrun, f, g, hsplit, hapart, ?_⟩
  rw [hsplit, List.pairwise_pair] at hnames
  obtain ⟨-, hname⟩ := hnames.resolve_right fun hsame => hapart hsame.1
  exact hname.1 (hf.2.2.trans hg.2.2.symm)

/-- The findings in the two files have one name. -/
theorem nested_findings_share_name :
    RuleDraft.build { rules := nestedRules.rules } = .ok nestedRules ∧
    ∃ report d', runRepair nestedSettings nestedRules { name := "syntaxfix" } {} nestedDisk =
        (.ok report, d') ∧
      ∃ f ∈ report.findings, ∃ g ∈ report.findings, f ≠ g ∧ f.fingerprint = g.fingerprint := by
  obtain ⟨report, d', hrun, hfindings⟩ := exists_nestedRun
  refine ⟨build_nestedRules, report, d', hrun, ?_⟩
  obtain ⟨f, rest, hsplit, hf, hrest⟩ := List.map_eq_cons_iff.1 hfindings
  obtain ⟨g, rest', rfl, hg, -⟩ := List.map_eq_cons_iff.1 hrest
  rw [hsplit]
  refine ⟨f, List.mem_cons_self, g, List.mem_cons_of_mem f List.mem_cons_self, ?_, ?_⟩
  · rintro rfl
    simp [hf] at hg
  · simp only [Prod.mk.injEq] at hf hg
    rw [hf.2.2, hg.2.2]

end SourceMend
