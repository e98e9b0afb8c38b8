import SourceMend.Proofs.Disk.Tree
import SourceMend.Proofs.Repair.Rest
import SourceMend.Proofs.RuleSet.Cycles
import SourceMend.Proofs.Run.Alone

/-!
A second run. If all files of a run have converged, each of them now has a text that a pass gives
back. A second run walks the same files, finds each of them at rest after one pass, and writes
nothing.
-/
namespace SourceMend

section
variable {d d' : Disk} {settings : Settings} {rules : RuleSet} {src : SourceFile} {content : Text}

/-! The walk -/

/-- A walk sees which files there are, and not what is in them. -/
theorem Walker.visitRoots_eq (w : Walker) (h : d.Proper) (h' : d'.Proper) (htree : d.SameTree d')
    (st : Walker.State) (roots : List String) :
    w.visitRoots d' st roots = w.visitRoots d st roots := by
  have hroot (st : Walker.State) (root : String) :
      w.visitRoot d' st root = w.visitRoot d st root := by
    unfold visitRoot Disk.entryAt
    rw [htree.locate_eq]
    cases d.locate root with
    | error cause => rfl
    | ok key =>
      dsimp only
      by_cases hsame : d'.get? key = d.get? key
      · rw [hsame]
        cases d.get? key with
        | none => rfl
        | some e =>
          cases e with
          | file bytes => rfl
          | directory =>
            dsimp only
            rw [h.sightings_eq h' htree]
      · obtain ⟨old, new, hold, hnew⟩ := htree.files key hsame
        rw [hold, hnew]
  induction roots generalizing st with
  | nil => rfl
  | cons root roots ih =>
    unfold visitRoots
    rw [hroot]
    cases w.visitRoot d st root with
    | error cause => rfl
    | ok next => exact ih next

theorem Run.start_sameTree {run : Run} (h : d.Proper) (h' : d'.Proper) (htree : d.SameTree d')
    (hstart : Run.start settings rules d = .ok run) :
    Run.start settings rules d' = .ok { run with disk := d' } := by
  have hentries : entries settings d' = entries settings d := by
    unfold entries Walker.walk
    simp only [Walker.visitRoots_eq _ h h' htree]
  obtain ⟨hchecked, hcheck, hstart⟩ := eq_ok_of_bind hstart
  obtain ⟨found, hfound, hstart⟩ := eq_ok_of_bind hstart
  obtain rfl := Except.ok.inj hstart
  unfold start
  rw [hcheck, hentries, hfound]
  rfl

theorem Disk.Proper.mend (h : d.Proper) (device : Device) (id : String) (src : SourceFile) :
    (d.mend settings rules device id (fun _ d => d) src).2.Proper := by
  have hmended := d.mended settings rules device id src
  unfold Disk.mendAlone at hmended
  generalize d.mend settings rules device id (fun _ d => d) src = out at hmended
  cases hmended with
  | unreadable | still | refused => exact h
  | replaced _ _ _ _ file => exact h.put (key_ne_nil_of_file file) _

theorem Run.proper_disk_steps {around : Surroundings} (hquiet : around.interfere = fun _ d => d)
    {run : Run} (h : run.disk.Proper) (n : Nat) : (run.steps around n).disk.Proper := by
  induction n generalizing run with
  | zero => exact h
  | succ n ih =>
    refine ih ?_
    rw [hquiet]
    unfold step
    split
    · exact h
    · split
      · exact h
      · exact h.mend _ _ _

/-! The files -/

/-- The text that a repair without a fixed point is kept from is not the one of a file that has
converged. -/
theorem FilePlan.final_of_converged
    (h : (src.plan settings rules content).outcome.convergence = .converged) :
    (src.plan settings rules content).final =
      (rules.repair settings.maxPasses content (Context.ofPath src.display)).content := by
  have h : (rules.repair settings.maxPasses content (Context.ofPath src.display)).convergence =
      .converged := h
  unfold SourceFile.plan make FileRecord.of status
  dsimp only
  rw [h]
  by_cases hsame :
      (rules.repair settings.maxPasses content (Context.ofPath src.display)).content = content
  · simp [Convergence.isStalled, hsame]
  · simp [Convergence.isStalled, hsame]

/-- A file whose text is at rest. -/
theorem FilePlan.make_of_still (settings : Settings)
    (h : (rules.applyPass content (Context.ofPath src.display)).text = content) :
    (src.plan settings rules content).commits = false ∧
      (src.plan settings rules content).outcome.status = .unchanged ∧
      (src.plan settings rules content).outcome.convergence = .converged ∧
      (src.plan settings rules content).outcome.passesExecuted = 1 := by
  unfold SourceFile.plan make FileRecord.of
  dsimp only
  rw [RuleSet.repair_of_still settings.maxPasses h]
  simp [status, Convergence.isStalled]

theorem Disk.Mended.readText_final {device : Device} {id : String} {out : FileResult × Disk}
    (h : d.Mended settings rules device id src out) (hwet : settings.dryRun = false)
    (hout : out.1.outcome.status ≠ .failed) :
    ∃ content, d.readText src.path = .ok content ∧
      out.1.outcome.convergence = (src.plan settings rules content).outcome.convergence ∧
      out.2.readText src.path = .ok (src.plan settings rules content).final := by
  cases h with
  | unreadable | refused => exact absurd rfl hout
  | @still content read still =>
    have hfits := FilePlan.make_fits settings rules src content
    refine ⟨content, read, rfl, ?_⟩
    rcases hfits.status with ⟨hmodified, -⟩ | ⟨-, hfinal⟩
    · rw [hfits.commits.2 ⟨hmodified, hwet⟩] at still
      contradiction
    · rw [hfinal]
      exact read
  | @replaced content receipt key read commits after target file =>
    refine ⟨content, read, rfl, readText_eq_ok.2 (readBytes_eq_ok.2 ⟨key, ?_, ?_⟩)⟩
    · exact ((sameTree_put file _).locate_eq _).trans target
    · exact get?_put_self d _ (key_ne_nil_of_file file)

/-- What is left of a file that has converged is a text that a pass gives back. -/
theorem Treated.at_rest {job : Job} {result : FileResult}
    (h : Treated settings rules d job result d') (htree : d.SameTree d')
    (hwet : settings.dryRun = false) (hconverged : result.outcome.convergence = .converged)
    (hfine : result.outcome.status ≠ .failed ∧ result.outcome.status ≠ .cancelled)
    (hd : ∀ content, d.readText job.source.path = .ok content →
      rules.Distinguishes (Context.ofPath job.source.display) content (rules.repair
        settings.maxPasses content (Context.ofPath job.source.display)).passesExecuted.toNat) :
    ∃ content, d'.readText job.source.path = .ok content ∧
      (rules.applyPass content (Context.ofPath job.source.display)).text = content := by
  rcases h.readBytes htree with ⟨rfl, -⟩ | ⟨rfl, hbytes⟩
  · exact absurd rfl hfine.2
  · obtain ⟨content, hread, hout, hfinal⟩ :=
      (d.mended settings rules job.device job.id job.source).readText_final hwet hfine.1
    rw [hout] at hconverged
    rw [FilePlan.final_of_converged hconverged] at hfinal
    exact ⟨_, Disk.readText_eq_ok.2 (hbytes.trans (Disk.readText_eq_ok.1 hfinal)),
      RuleSet.applyPass_of_converged (hd content hread) hconverged⟩

end

/-- A second run over files that have all converged in the first one finds the same files and the
same paths to skip. It takes one pass over each file, which changes nothing, and leaves the disk as
it is, whatever others would do to a file before it is committed. -/
theorem runRepair_rerun {settings : Settings} {rules : RuleSet} {tool : ToolInfo}
    {around around' : Surroundings} {d d' : Disk} {report : Report} (hproper : d.Proper)
    (hwet : settings.dryRun = false) (hquiet : around.interfere = fun _ d => d)
    (hdistinct : (Run.sources settings d).Pairwise d.Apart)
    (hrun : runRepair settings rules tool around d = (.ok report, d'))
    (hconverged : ∀ o ∈ report.files, o.convergence = .converged)
    (hfine : ∀ o ∈ report.files, o.status ≠ .failed ∧ o.status ≠ .cancelled)
    (hpatient : around'.Patient settings)
    (hd : ∀ src ∈ Run.sources settings d, ∀ content, d.readText src.path = .ok content →
      rules.Distinguishes (Context.ofPath src.display) content (rules.repair settings.maxPasses
        content (Context.ofPath src.display)).passesExecuted.toNat) :
    ∃ report', runRepair settings rules tool around' d' = (.ok report', d') ∧
      report'.files.map (·.path) = report.files.map (·.path) ∧
      report'.skipped = report.skipped ∧
      ∀ o ∈ report'.files,
        o.status = .unchanged ∧ o.convergence = .converged ∧ o.passesExecuted = 1 := by
  obtain ⟨run, hstart, -, hsteps⟩ := runRepair_eq_ok hrun
  obtain ⟨results, disk, hends, hseparately, -⟩ := runRepair_separately tool hstart hquiet hdistinct
  obtain ⟨hreport, rfl⟩ := Prod.mk.inj (hends.symm.trans hrun)
  have hreport := Except.ok.inj hreport
  have hfiles : report.files = results.map (·.outcome) := hreport ▸ rfl
  rw [hfiles, List.forall_mem_map] at hconverged hfine
  have hresults := hseparately.results_eq fun r hr => (hfine r hr).2
  have hproper' : disk.Proper := by
    rw [hsteps]
    refine Run.proper_disk_steps hquiet ?_ _
    rwa [(Run.start_eq_ok hstart).2.2.2.2]
  have hstart' := Run.start_sameTree hproper hproper' hseparately.sameTree hstart
  obtain ⟨rfl, rfl, htodo, -, rfl⟩ := Run.start_eq_ok hstart
  have hleft : ∀ src ∈ run.todo, ∃ content, disk.readText src.path = .ok content ∧
      (run.rules.applyPass content (Context.ofPath src.display)).text = content := by
    intro src hsrc
    have hsource : src ∈ Run.sources run.settings run.disk := htodo ▸ hsrc
    rw [← Run.map_source_jobs run around] at hsrc
    obtain ⟨job, hjob, rfl⟩ := List.mem_map.1 hsrc
    obtain ⟨result, hresult, htreated⟩ := hseparately.exists_treated hjob
    exact htreated.at_rest hseparately.sameTree hwet (hconverged _ hresult) (hfine _ hresult)
      (hd _ hsource)
  have hagain : ∀ src ∈ run.todo, ∀ device id,
      disk.mend run.settings run.rules device id around'.interfere src =
        ((disk.mendAlone run.settings run.rules .sound "" src).1, disk) := by
    intro src hsrc device id
    obtain ⟨content, hread, hstill⟩ := hleft src hsrc
    obtain ⟨hcommits, -⟩ := FilePlan.make_of_still run.settings hstill
    rw [Disk.mendAlone, Disk.mend_of_still hread hcommits, Disk.mend_of_still hread hcommits]
  refine ⟨_, runRepair_still tool hstart' hpatient hagain, ?_, ?_, ?_⟩
  · have hfiles' : (run.todo.map fun src =>
        (disk.mendAlone run.settings run.rules .sound "" src).1.outcome.path) =
        results.map (·.outcome.path) := by
      rw [hresults, ← Run.map_source_jobs run around, List.map_map, List.map_map]
      refine List.map_congr_left fun job _ => ?_
      exact ((disk.mended run.settings run.rules .sound "" job.source).path).trans
        (run.disk.mended run.settings run.rules job.device job.id job.source).path.symm
    rw [hfiles, List.map_map]
    refine Eq.trans ?_ hfiles'
    exact (List.map_map ..).trans (List.map_map ..)
  · rw [← hreport]
    rfl
  · intro o ho
    obtain ⟨result, hresult, rfl⟩ := List.mem_map.1 ho
    obtain ⟨src, hsrc, rfl⟩ := List.mem_map.1 hresult
    obtain ⟨content, hread, hstill⟩ := hleft src hsrc
    obtain ⟨hcommits, hplan⟩ := FilePlan.make_of_still run.settings hstill
    rw [Disk.mendAlone, Disk.mend_of_still hread hcommits]
    exact hplan

/-- The first run changes one of two files, the second one none. -/
theorem runRepair_rerun_small :
    let rules : RuleSet := ⟨1, [letterRule "rename" 'B' 'D']⟩
    smallDisk.Proper ∧ (Run.sources smallSettings smallDisk).Pairwise smallDisk.Apart ∧
    (∀ src ∈ Run.sources smallSettings smallDisk, ∀ content,
      smallDisk.readText src.path = .ok content →
        rules.Distinguishes (Context.ofPath src.display) content (rules.repair
          smallSettings.maxPasses content (Context.ofPath src.display)).passesExecuted.toNat) ∧
    ∃ report d', runRepair smallSettings rules { name := "syntaxfix" } {} smallDisk =
        (.ok report, d') ∧
      report.files.map (fun o => (o.status, o.passesExecuted)) = [(.modified, 2), (.unchanged, 1)] ∧
      ∃ report', runRepair smallSettings rules { name := "syntaxfix" } {} d' = (.ok report', d') ∧
        report'.files.map (·.path) = report.files.map (·.path) ∧
        ∀ o ∈ report'.files, o.status = .unchanged ∧ o.passesExecuted = 1 := by
  intro rules
  have hproper : smallDisk.Proper := ⟨by decide, by decide⟩
  have hdistinct : (Run.sources smallSettings smallDisk).Pairwise smallDisk.Apart := by
    decide +kernel
  have hd : ∀ src ∈ Run.sources smallSettings smallDisk,
      ((smallDisk.readText src.path).toOption.all fun content =>
        rules.Distinguishes (Context.ofPath src.display) content (rules.repair
          smallSettings.maxPasses content (Context.ofPath src.display)).passesExecuted.toNat) =
        true := by
    decide +kernel
  have hd : ∀ src ∈ Run.sources smallSettings smallDisk, ∀ content,
      smallDisk.readText src.path = .ok content →
        rules.Distinguishes (Context.ofPath src.display) content (rules.repair
          smallSettings.maxPasses content (Context.ofPath src.display)).passesExecuted.toNat := by
    intro src hsrc content hread
    have hsrc := hd src hsrc
    rw [hread] at hsrc
    exact of_decide_eq_true hsrc
  have hall : (runRepair smallSettings rules { name := "syntaxfix" } {} smallDisk).1.toOption.any
      (fun r => (∀ o ∈ r.files, o.convergence = .converged) ∧
        (∀ o ∈ r.files, o.status ≠ .failed ∧ o.status ≠ .cancelled) ∧
        r.files.map (fun o => (o.status, o.passesExecuted)) =
          [(.modified, 2), (.unchanged, 1)]) = true := by
    decide +kernel
  obtain ⟨⟨outcome, d'⟩, hrun⟩ : ∃ out,
    runRepair smallSettings rules { name := "syntaxfix" } {} smallDisk = out := ⟨_, rfl⟩
  rw [hrun] at hall
  cases outcome with
  | error error => contradiction
  | ok report =>
    obtain ⟨hconverged, hfine, hstatus⟩ := of_decide_eq_true hall
    have hpatient : Surroundings.Patient {} smallSettings := fun _ => ⟨rfl, rfl⟩
    obtain ⟨report', hrun', hpaths, -, hagain⟩ := runRepair_rerun hproper rfl rfl hdistinct hrun
      hconverged hfine hpatient hd
    exact ⟨hproper, hdistinct, hd, report, d', hrun, hstatus, report', hrun', hpaths,
      fun o ho => ⟨(hagain o ho).1, (hagain o ho).2.2⟩⟩

end SourceMend
