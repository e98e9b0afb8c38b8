import SourceMend.Proofs.RuleSet.Cycles
import SourceMend.Proofs.Run.Alone

/-!
Dry runs. What a dry run reports about a file follows from the file alone, and it is what a real run
reports too if it gets every change to the disk: the two reports differ in what they say of the
writing, and in nothing else. The digest of the new content comes from the text itself in the one
and from the receipt of the commit in the other.
-/
namespace SourceMend

/-! A report without what it says of the writing -/

def FileOutcome.unwritten (o : FileOutcome) : FileOutcome :=
  { o with written := false, patch := none }

def FileResult.unwritten (r : FileResult) : FileResult := { r with outcome := r.outcome.unwritten }

def Report.unwritten (r : Report) : Report :=
  { r with run := { r.run with dryRun := false }, files := r.files.map FileOutcome.unwritten }

/-- The file was read, but its new content did not reach it. -/
def FileOutcome.CommitFailed (o : FileOutcome) : Prop :=
  o.status = .failed ∧ o.sha256Before.isSome

instance (o : FileOutcome) : Decidable o.CommitFailed := inferInstanceAs (Decidable (_ ∧ _))

/-- The same settings for a run that writes nothing. -/
def Settings.dry (s : Settings) : Settings := { s with dryRun := true }

/-- The totals of a report count nothing that is said of the writing. -/
theorem Report.finalize_unwritten (r : Report) : r.finalize.unwritten = r.unwritten.finalize := by
  have hcount (p : FileOutcome → Bool) (hp : ∀ o : FileOutcome, p o.unwritten = p o) :
      r.unwritten.countFiles p = r.countFiles p := by
    unfold countFiles unwritten
    rw [List.countP_map]
    congr 2
    funext o
    exact hp o
  have htotals : r.unwritten.totals = r.totals := by
    unfold totals
    rw [hcount _ fun _ => rfl, hcount _ fun _ => rfl, hcount _ fun _ => rfl, hcount _ fun _ => rfl,
      hcount _ fun _ => rfl, hcount _ fun _ => rfl]
    simp [unwritten, countFindings]
  have hfires : r.unwritten.totalFires = r.totalFires := by
    unfold totalFires unwritten
    rw [List.foldl_map]
    rfl
  have hstalled : (r.unwritten.files.filter (·.convergence.isStalled)).map (·.path) =
      (r.files.filter (·.convergence.isStalled)).map (·.path) := by
    unfold unwritten
    rw [List.filter_map, List.map_map]
    rfl
  unfold finalize
  dsimp only
  rw [htotals, hfires, hstalled]
  rfl

/-- The report of a run before its totals are made. -/
def Run.opened (run : Run) (tool : ToolInfo) (around : Surroundings) : Report where
  schema := Report.schemaName
  tool
  run := {
    runId := around.runId
    startedAt := around.startedAt
    endedAt := around.endedAt
    durationMs := around.durationMs
    dryRun := run.settings.dryRun
    maxPasses := run.settings.maxPasses
    rulesetVersion := run.rules.version
    rulesLoaded := run.rules.rules.length.toUInt64 }
  files := run.results.map (·.outcome)
  findings := run.results.flatMap (·.findings)
  skipped := run.skipped

def Report.close (r : Report) (rules : RuleSet) : Report :=
  { r.finalize with firesByCategory := Run.firesByCategory rules r.finalize.firesByRule }

theorem Run.report_eq_close (run : Run) (tool : ToolInfo) (around : Surroundings) :
    run.report tool around = (run.opened tool around).close run.rules := rfl

theorem Report.close_unwritten (r : Report) (rules : RuleSet) :
    (r.close rules).unwritten = r.unwritten.close rules := by
  unfold close
  rw [← finalize_unwritten]
  rfl

/-- A run without what differs between a dry and a real one. -/
def Run.unwritten (run : Run) : Run :=
  { run with
    settings := { run.settings with dryRun := false }
    results := run.results.map FileResult.unwritten }

/-- The report of a run, up to its dates and what it says of the writing. -/
theorem Run.report_unwritten (run : Run) (tool : ToolInfo) (around around' : Surroundings) :
    (run.report tool around).undated.unwritten = (run.unwritten.report tool around').undated := by
  have hopened : (run.opened tool around).undated.unwritten =
      (run.unwritten.opened tool around').undated := by
    have hfiles : (run.results.map (·.outcome)).map FileOutcome.unwritten =
        (run.results.map FileResult.unwritten).map (·.outcome) := by
      rw [List.map_map, List.map_map]
      rfl
    have hfindings : run.results.flatMap (·.findings) =
        (run.results.map FileResult.unwritten).flatMap (·.findings) := by
      rw [List.flatMap_map]
      rfl
    unfold opened Report.undated Report.unwritten
    dsimp only
    rw [hfiles, hfindings]
    rfl
  have hclose (r : Report) : (r.close run.rules).undated = r.undated.close run.rules := rfl
  rw [report_eq_close, report_eq_close, hclose, Report.close_unwritten, hopened]
  exact (hclose _).symm

/-! The work on one file -/

section
variable {settings : Settings} {rules : RuleSet} {d : Disk} {src : SourceFile}

/-- What a dry run reports about a file. -/
def Disk.forecast (d : Disk) (settings : Settings) (rules : RuleSet) (src : SourceFile) :
    FileResult :=
  match d.readText src.path with
  | .error fault => .unreadable src fault
  | .ok content => (src.plan settings.dry rules content).done rules

theorem FilePlan.commits_dry (settings : Settings) (rules : RuleSet) (src : SourceFile)
    (content : Text) : (src.plan settings.dry rules content).commits = false := by
  simp [FilePlan.make, Settings.dry]

/-- A dry plan gives the digest of the final text, which it has in common with the real one. -/
theorem FilePlan.sha256After_dry (settings : Settings) (rules : RuleSet) (src : SourceFile)
    (content : Text) : (src.plan settings.dry rules content).outcome.sha256After =
      some (Digest.ofText (src.plan settings rules content).final).hex :=
  (make_fits settings.dry rules src content).after (commits_dry settings rules src content)

/-- Only the digest of the new content is not settled before the commit. -/
theorem FilePlan.done_unwritten_dry (settings : Settings) (rules : RuleSet) (src : SourceFile)
    (content : Text) (hafter : (src.plan settings rules content).outcome.sha256After =
      some (Digest.ofText (src.plan settings rules content).final).hex) :
    ((src.plan settings.dry rules content).done rules).unwritten =
      ((src.plan settings rules content).done rules).unwritten := by
  rw [← sha256After_dry] at hafter
  have houtcome : (src.plan settings.dry rules content).outcome.unwritten =
      { (src.plan settings rules content).outcome.unwritten with
        sha256After := (src.plan settings.dry rules content).outcome.sha256After } := rfl
  rw [← hafter] at houtcome
  exact congrArg (fun o => FileResult.mk o ((src.plan settings rules content).done rules).findings)
    houtcome

/-- The receipt of a commit gives the digest that a dry run makes of the text. -/
theorem FilePlan.committed_unwritten_dry (settings : Settings) (rules : RuleSet)
    (src : SourceFile) (content : Text) {receipt : Receipt}
    (hafter : receipt.after = Digest.ofText (src.plan settings rules content).final) :
    ((src.plan settings.dry rules content).done rules).unwritten =
      (((src.plan settings rules content).committed receipt).done rules).unwritten := by
  have houtcome : (src.plan settings.dry rules content).outcome.unwritten =
      { ((src.plan settings rules content).committed receipt).outcome.unwritten with
        sha256After := (src.plan settings.dry rules content).outcome.sha256After } := rfl
  rw [sha256After_dry, ← hafter] at houtcome
  exact congrArg (fun o => FileResult.mk o ((src.plan settings rules content).done rules).findings)
    houtcome

theorem Disk.mend_dry (d : Disk) (settings : Settings) (rules : RuleSet) (device : Device)
    (id : String) (interfere : String → Disk → Disk) (src : SourceFile) :
    d.mend settings.dry rules device id interfere src = (d.forecast settings rules src, d) := by
  unfold mend readRecord forecast
  cases d.readText src.path with
  | error fault => rfl
  | ok content => exact if_neg (by simpa using FilePlan.commits_dry settings rules src content)

theorem Disk.Mended.forecast_unwritten {device : Device} {id : String} {out : FileResult × Disk}
    (h : d.Mended settings rules device id src out) (hout : ¬ out.1.outcome.CommitFailed) :
    (d.forecast settings rules src).unwritten = out.1.unwritten := by
  unfold Disk.forecast
  cases h with
  | unreadable read => rw [read]
  | @still content read still =>
    rw [read]
    exact FilePlan.done_unwritten_dry settings rules src content
      ((FilePlan.make_fits settings rules src content).after still)
  | replaced read commits after =>
    rw [read]
    exact FilePlan.committed_unwritten_dry settings rules src _ after
  | refused => exact absurd ⟨rfl, rfl⟩ hout

/-- What a dry run reports of a changed file is what a real run leaves on the disk. -/
theorem Disk.Mended.forecast_modified {device : Device} {id : String} {out : FileResult × Disk}
    (h : d.Mended settings rules device id src out) (hwet : settings.dryRun = false)
    (hout : ¬ out.1.outcome.CommitFailed)
    (hmodified : (d.forecast settings rules src).outcome.status = .modified) :
    ∃ bytes, out.2.readBytes src.path = .ok bytes ∧
      (d.forecast settings rules src).outcome.sha256After = some (Digest.ofBytes bytes).hex := by
  unfold Disk.forecast at hmodified ⊢
  cases h with
  | unreadable read =>
    rw [read] at hmodified
    contradiction
  | @still content read still =>
    rw [read] at hmodified
    have hcommits := (FilePlan.make_fits settings rules src content).commits.2 ⟨hmodified, hwet⟩
    rw [still] at hcommits
    contradiction
  | refused => exact absurd ⟨rfl, rfl⟩ hout
  | @replaced content receipt key read commits after target file =>
    rw [read]
    refine ⟨_, readBytes_eq_ok.2 ⟨key, ?_, get?_put_self d _ (key_ne_nil_of_file file)⟩,
      FilePlan.sha256After_dry settings rules src content⟩
    exact ((sameTree_put file _).locate_eq _).trans target

end

namespace Run

theorem start_dry {settings : Settings} {rules : RuleSet} {d : Disk} {run : Run}
    (h : start settings rules d = .ok run) :
    start settings.dry rules d = .ok { run with settings := settings.dry } := by
  obtain ⟨hchecked, hcheck, h⟩ := eq_ok_of_bind h
  obtain ⟨found, hfound, h⟩ := eq_ok_of_bind h
  obtain rfl := Except.ok.inj h
  have hcheck : checkSettings settings.dry = .ok hchecked := hcheck
  have hfound : (entries settings.dry d).mapError RunError.walk = .ok found := hfound
  unfold start
  rw [hcheck, hfound]
  rfl

end Run

/-- A dry run predicts a real one that nobody disturbs, if that one gets every change to the disk
and gives no file up. It leaves the disk as it is, has no change to commit whatever it reads, and
gives the same report up to what this says of the writing; and the digest that it gives for a
changed file is that of the bytes which the real run puts there. -/
theorem runRepair_dry_predicts {settings : Settings} {rules : RuleSet} {tool : ToolInfo}
    {around around' : Surroundings} {d d' : Disk} {real : Report}
    (hwet : settings.dryRun = false) (hquiet : around.interfere = fun _ d => d)
    (hdistinct : (Run.sources settings d).Pairwise d.Apart)
    (hreal : runRepair settings rules tool around d = (.ok real, d'))
    (hcommits : ∀ o ∈ real.files, ¬ o.CommitFailed)
    (hgoes : ∀ o ∈ real.files, o.status ≠ .cancelled) (hpatient : around'.Patient settings) :
    ∃ predicted, runRepair settings.dry rules tool around' d = (.ok predicted, d) ∧
      predicted.undated.unwritten = real.undated.unwritten ∧
      (∀ (src : SourceFile) (content : Text),
        (src.plan settings.dry rules content).commits = false) ∧
      ∀ e ∈ (Run.sources settings d).zip predicted.files, e.2.status = .modified →
        ∃ bytes, d'.readBytes e.1.path = .ok bytes ∧
          e.2.sha256After = some (Digest.ofBytes bytes).hex := by
  obtain ⟨run, hstart, -⟩ := runRepair_eq_ok hreal
  obtain ⟨results, disk, hends, hseparately, -⟩ := runRepair_separately tool hstart hquiet hdistinct
  obtain ⟨hreport, rfl⟩ := Prod.mk.inj (hends.symm.trans hreal)
  have hreport := Except.ok.inj hreport
  have hfiles : real.files = results.map (·.outcome) := hreport ▸ rfl
  rw [hfiles, List.forall_mem_map] at hcommits hgoes
  have hresults := hseparately.results_eq hgoes
  have hdry : runRepair settings.dry rules tool around' d =
      (.ok (({ run with
          settings := settings.dry
          todo := []
          results := run.todo.map (d.forecast settings rules) } : Run).report tool around'), d) :=
    runRepair_still tool (Run.start_dry hstart) hpatient fun src _ device id =>
      d.mend_dry settings rules device id around'.interfere src
  obtain ⟨rfl, rfl, htodo, -, rfl⟩ := Run.start_eq_ok hstart
  refine ⟨_, hdry, ?_, FilePlan.commits_dry _ _, ?_⟩
  · have hsame : (run.todo.map (run.disk.forecast run.settings run.rules)).map
        FileResult.unwritten = results.map FileResult.unwritten := by
      rw [← Run.map_source_jobs run around, hresults, List.map_map, List.map_map, List.map_map]
      refine List.map_congr_left fun job hjob => ?_
      have hmended := run.disk.mended run.settings run.rules job.device job.id job.source
      refine hmended.forecast_unwritten (hcommits _ ?_)
      rw [hresults]
      exact List.mem_map_of_mem hjob
    rw [← hreport, Run.report_unwritten _ tool around' around, Run.report_unwritten _ tool _ around]
    unfold Run.unwritten
    dsimp only
    rw [hsame]
    rfl
  · intro e he hmodified
    rw [← htodo] at he
    have he : e ∈ run.todo.zip
        ((run.todo.map (run.disk.forecast run.settings run.rules)).map (·.outcome)) := he
    rw [List.map_map, ← List.map_prod_left_eq_zip, ← Run.map_source_jobs run around,
      List.map_map] at he
    obtain ⟨job, hjob, rfl⟩ := List.mem_map.1 he
    obtain ⟨result, hresult, htreated⟩ := hseparately.exists_treated hjob
    have hmended := run.disk.mended run.settings run.rules job.device job.id job.source
    rcases htreated.readBytes hseparately.sameTree with ⟨rfl, -⟩ | ⟨rfl, hbytes⟩
    · exact absurd rfl (hgoes _ hresult)
    · obtain ⟨bytes, hread, hafter⟩ := hmended.forecast_modified hwet (hcommits _ hresult) hmodified
      exact ⟨bytes, hbytes.trans hread, hafter⟩

/-- A file that changes and one that does not; the dry run is told of a time that is long over. -/
theorem runRepair_dry_predicts_small :
    let rules : RuleSet := ⟨1, [letterRule "rename" 'B' 'D']⟩
    let around : Surroundings := { runId := "dry", elapsed := fun _ => 100 }
    (Run.sources smallSettings smallDisk).Pairwise smallDisk.Apart ∧
    around.Patient smallSettings ∧
    ∃ real d', runRepair smallSettings rules { name := "syntaxfix" } {} smallDisk = (.ok real, d') ∧
      real.files.map (·.status) = [.modified, .unchanged] ∧
      d'.readText "src/a.ts" = .ok "A D".toList ∧
      ∃ predicted, runRepair smallSettings.dry rules { name := "syntaxfix" } around smallDisk =
          (.ok predicted, smallDisk) ∧
        predicted.undated.unwritten = real.undated.unwritten := by
  intro rules around
  have hdistinct : (Run.sources smallSettings smallDisk).Pairwise smallDisk.Apart := by
    decide +kernel
  have hpatient : around.Patient smallSettings := fun _ => ⟨rfl, rfl⟩
  have hall : (runRepair smallSettings rules { name := "syntaxfix" } {} smallDisk).1.toOption.any
      (fun r => (∀ o ∈ r.files, ¬ o.CommitFailed ∧ o.status ≠ .cancelled) ∧
        r.files.map (·.status) = [.modified, .unchanged]) = true ∧
      (runRepair smallSettings rules { name := "syntaxfix" } {} smallDisk).2.readText "src/a.ts" =
        .ok "A D".toList := by
    decide +kernel
  obtain ⟨⟨outcome, d'⟩, hrun⟩ : ∃ out,
    runRepair smallSettings rules { name := "syntaxfix" } {} smallDisk = out := ⟨_, rfl⟩
  rw [hrun] at hall
  obtain ⟨hfiles, htext⟩ := hall
  cases outcome with
  | error error => contradiction
  | ok real =>
    obtain ⟨hfiles, hstatus⟩ := of_decide_eq_true hfiles
    obtain ⟨predicted, hpredicted, hsame, -, -⟩ := runRepair_dry_predicts rfl rfl hdistinct hrun
      (fun o ho => (hfiles o ho).1) (fun o ho => (hfiles o ho).2) hpatient
    exact ⟨hdistinct, hpatient, real, d', hrun, hstatus, htext, predicted, hpredicted, hsame⟩

end SourceMend
