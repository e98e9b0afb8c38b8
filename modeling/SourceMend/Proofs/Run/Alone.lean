import SourceMend.Proofs.Run.Truth

/-!
Every file by itself. When the files of a run are distinct and nobody else touches the disk, what
becomes of a file depends on the disk before the run alone: the other files of the run could as well
not be there.
-/
namespace SourceMend

theorem Disk.Mended.not_cancelled {d : Disk} {settings : Settings} {rules : RuleSet}
    {device : Device} {id : String} {src : SourceFile} {out : FileResult × Disk}
    (h : d.Mended settings rules device id src out) : out.1.outcome.status ≠ .cancelled := by
  have hplan (content : Text) :
      (src.plan settings rules content).outcome.status ≠ .cancelled := by
    rcases (FilePlan.make_fits settings rules src content).status with ⟨h, -⟩ | ⟨h | h, -⟩ <;>
      simp [h]
  cases h with
  | unreadable => simp [FileResult.unreadable]
  | still | replaced => exact hplan _
  | refused => simp [FilePlan.failed]

/-- A file to work on, the name of its temporary file, and the device that it is committed to. -/
structure Job where
  source : SourceFile
  id : String
  device : Device

/-- The jobs of a run; its surroundings name the temporary files. -/
def Run.jobs (run : Run) (around : Surroundings) : List Job :=
  run.todo.mapIdx fun i src =>
    ⟨src, around.tempId (run.results.length + i), around.device (run.results.length + i)⟩

variable {settings : Settings} {rules : RuleSet} {d d₁ d₂ : Disk} {job : Job} {jobs : List Job}
  {result : FileResult} {results : List FileResult}

/-- What becomes of a file: it is given up and stays what it is, or the result and the file are what
the work on it alone gives. -/
inductive Treated (settings : Settings) (rules : RuleSet) (d : Disk) (job : Job)
    (result : FileResult) (d' : Disk) : Prop
  | cancelled (result_eq : result = .cancelled job.source)
    (same : ∀ key, d.locate job.source.path = .ok key → d'.get? key = d.get? key)
  | mended (result_eq : result = (d.mendAlone settings rules job.device job.id job.source).1)
    (same : ∀ key, d.locate job.source.path = .ok key →
      d'.get? key = (d.mendAlone settings rules job.device job.id job.source).2.get? key)

/-- Every job has come out as if it were the only one, and nothing else has changed. -/
structure Separately (settings : Settings) (rules : RuleSet) (d : Disk) (jobs : List Job)
    (results : List FileResult) (d' : Disk) : Prop where
  treated : List.Forall₂ (fun job result => Treated settings rules d job result d') jobs results
  rest : ∀ k, (∀ job ∈ jobs, d.locate job.source.path ≠ .ok k) → d'.get? k = d.get? k
  ground : d'.toGround = d.toGround

theorem Treated.readBytes (h : Treated settings rules d job result d₁) (htree : d.SameTree d₁) :
    result = .cancelled job.source ∧
        d₁.readBytes job.source.path = d.readBytes job.source.path ∨
      result = (d.mendAlone settings rules job.device job.id job.source).1 ∧
        d₁.readBytes job.source.path =
          (d.mendAlone settings rules job.device job.id job.source).2.readBytes
            job.source.path := by
  cases h with
  | cancelled heq hsame =>
    exact .inl ⟨heq, Disk.readBytes_congr (htree.locate_eq _) hsame⟩
  | mended heq hsame =>
    obtain ⟨hmended, -⟩ := (d.mended settings rules job.device job.id job.source).frame
    refine .inr ⟨heq, Disk.readBytes_congr ?_ fun key hkey => hsame key ?_⟩
    · rw [htree.locate_eq, hmended.locate_eq]
    · rwa [hmended.locate_eq] at hkey

theorem Treated.same_of_not_cancelled (h : Treated settings rules d job result d₁)
    (hresult : result.outcome.status ≠ .cancelled) (key : Key)
    (hkey : d.locate job.source.path = .ok key) :
    d₁.get? key = (d.mendAlone settings rules job.device job.id job.source).2.get? key := by
  cases h with
  | cancelled heq =>
    rw [heq] at hresult
    exact absurd rfl hresult
  | mended _ hsame => exact hsame key hkey

/-- What comes later does not matter if it spares the file. -/
theorem Treated.later (h : Treated settings rules d job result d₁)
    (hkey : ∀ key, d.locate job.source.path = .ok key → d₂.get? key = d₁.get? key) :
    Treated settings rules d job result d₂ := by
  cases h with
  | cancelled heq hsame =>
    exact .cancelled heq fun key hlocate => (hkey key hlocate).trans (hsame key hlocate)
  | mended heq hsame =>
    exact .mended heq fun key hlocate => (hkey key hlocate).trans (hsame key hlocate)

/-- What came before does not matter if it spared the file. -/
theorem Treated.earlier (h : Treated settings rules d₁ job result d₂) (htree : d.SameTree d₁)
    (hkey : ∀ key, d.locate job.source.path = .ok key → d₁.get? key = d.get? key) :
    Treated settings rules d job result d₂ := by
  obtain ⟨hfst, hsnd⟩ := htree.mendAlone settings rules job.device job.id hkey
  cases h with
  | cancelled heq hsame =>
    refine .cancelled heq fun key hlocate => ?_
    rw [hsame key (by rwa [htree.locate_eq]), hkey key hlocate]
  | mended heq hsame =>
    refine .mended (heq.trans hfst) fun key hlocate => ?_
    rw [hsame key (by rwa [htree.locate_eq]), hsnd key hlocate]

namespace Separately

theorem nil (settings : Settings) (rules : RuleSet) (d : Disk) :
    Separately settings rules d [] [] d :=
  ⟨.nil, fun _ _ => rfl, rfl⟩

/-- One more job in front of the others. -/
theorem cons (hone : Treated settings rules d job result d₁) (htree : d.SameTree d₁)
    (hframe : ∀ k, d.locate job.source.path ≠ .ok k → d₁.get? k = d.get? k)
    (h : Separately settings rules d₁ jobs results d₂)
    (hapart : ∀ j ∈ jobs, d.Apart job.source j.source) :
    Separately settings rules d (job :: jobs) (result :: results) d₂ := by
  have hlater (key : Key) (hkey : d.locate job.source.path = .ok key) :
      d₂.get? key = d₁.get? key := by
    refine h.rest key fun j hj => ?_
    rw [htree.locate_eq]
    exact (hapart j hj).ne hkey
  have hbefore : ∀ j ∈ jobs, ∀ key, d.locate j.source.path = .ok key →
      d₁.get? key = d.get? key :=
    fun j hj key hkey => hframe key fun hkey' => (hapart j hj).ne hkey' hkey
  constructor
  · refine .cons (hone.later hlater) ?_
    refine ((List.forall₂_and_left _ _).2 ⟨hbefore, h.treated⟩).imp ?_
    rintro j r ⟨hkey, htreated⟩
    exact htreated.earlier htree hkey
  · intro k hk
    obtain ⟨hjob, hjobs⟩ := List.forall_mem_cons.1 hk
    rw [h.rest k fun j hj => by rw [htree.locate_eq]; exact hjobs j hj, hframe k hjob]
  · exact h.ground.trans htree.ground

theorem exists_treated (h : Separately settings rules d jobs results d₁) (hjob : job ∈ jobs) :
    ∃ result ∈ results, Treated settings rules d job result d₁ := by
  obtain ⟨i, hi, rfl⟩ := List.getElem_of_mem hjob
  have hi' : i < results.length := h.treated.length_eq ▸ hi
  exact ⟨results[i], List.getElem_mem hi', h.treated.get hi hi'⟩

theorem sameTree (h : Separately settings rules d jobs results d₁) : d.SameTree d₁ := by
  refine ⟨h.ground, fun k hk => ?_⟩
  by_cases hrest : ∃ job ∈ jobs, d.locate job.source.path = .ok k
  · obtain ⟨job, hjob, hlocate⟩ := hrest
    obtain ⟨result, -, htreated⟩ := h.exists_treated hjob
    cases htreated with
    | cancelled _ hsame => exact absurd (hsame k hlocate) hk
    | mended _ hsame =>
      rw [hsame k hlocate] at hk ⊢
      exact (d.mended settings rules job.device job.id job.source).frame.1.files k hk
  · exact absurd (h.rest k fun job hjob hlocate => hrest ⟨job, hjob, hlocate⟩) hk

/-- If no job is given up, the results are those of each job alone. -/
theorem results_eq (h : Separately settings rules d jobs results d₁)
    (hall : ∀ result ∈ results, result.outcome.status ≠ .cancelled) :
    results = jobs.map fun job => (d.mendAlone settings rules job.device job.id job.source).1 := by
  have htreated := h.treated
  clear h
  induction htreated with
  | nil => rfl
  | cons hone hrest ih =>
    obtain ⟨hresult, hresults⟩ := List.forall_mem_cons.1 hall
    cases hone with
    | cancelled heq =>
      rw [heq] at hresult
      exact absurd rfl hresult
    | mended heq => rw [List.map_cons, ← heq, ih hresults]

/-- If no job is given up, the disk is determined too. -/
theorem get?_eq {results' : List FileResult} (h : Separately settings rules d jobs results d₁)
    (h' : Separately settings rules d jobs results' d₂)
    (hall : ∀ result ∈ results, result.outcome.status ≠ .cancelled)
    (hall' : ∀ result ∈ results', result.outcome.status ≠ .cancelled) (k : Key) :
    d₁.get? k = d₂.get? k := by
  by_cases hrest : ∃ job ∈ jobs, d.locate job.source.path = .ok k
  · obtain ⟨job, hjob, hlocate⟩ := hrest
    obtain ⟨result, hresult, htreated⟩ := h.exists_treated hjob
    obtain ⟨result', hresult', htreated'⟩ := h'.exists_treated hjob
    have hsame := htreated.same_of_not_cancelled (hall result hresult) k hlocate
    have hsame' := htreated'.same_of_not_cancelled (hall' result' hresult') k hlocate
    exact hsame.trans hsame'.symm
  · have hnone : ∀ job ∈ jobs, d.locate job.source.path ≠ .ok k :=
      fun job hjob hlocate => hrest ⟨job, hjob, hlocate⟩
    rw [h.rest k hnone, h'.rest k hnone]

end Separately

/-! One job after the other -/

/-- Nobody calls the run off, and its time is never over. -/
def Surroundings.Patient (around : Surroundings) (settings : Settings) : Prop :=
  ∀ n, around.calledOff n = false ∧ Run.isOver settings (around.elapsed n) = false

namespace Run

variable {run : Run} {around : Surroundings}

theorem jobs_cons {src : SourceFile} {rest : List SourceFile} (htodo : run.todo = src :: rest)
    (result : FileResult) (disk : Disk) :
    run.jobs around =
      ⟨src, around.tempId run.results.length, around.device run.results.length⟩ ::
      ({ run with todo := rest, results := run.results ++ [result], disk } : Run).jobs around := by
  unfold jobs
  rw [htodo, List.mapIdx_cons]
  simp only [List.length_append, List.length_singleton, Nat.add_zero]
  congr 2
  funext i src
  rw [Nat.add_comm i, Nat.add_assoc]

theorem step_treated {src : SourceFile} {rest : List SourceFile} (htodo : run.todo = src :: rest)
    (device : Device) (id : String) (stopped : Bool) :
    ∃ result disk, run.step device id (fun _ d => d) stopped =
        { run with todo := rest, results := run.results ++ [result], disk } ∧
      Treated run.settings run.rules run.disk ⟨src, id, device⟩ result disk ∧
      run.disk.SameTree disk ∧
      (∀ k, run.disk.locate src.path ≠ .ok k → disk.get? k = run.disk.get? k) ∧
      (stopped = false → result.outcome.status ≠ .cancelled) := by
  unfold step
  rw [htodo]
  cases stopped with
  | true =>
    exact ⟨_, _, rfl, .cancelled rfl fun _ _ => rfl, .refl _, fun _ _ => rfl, by simp⟩
  | false =>
    have hmended := run.disk.mended run.settings run.rules device id src
    exact ⟨(run.disk.mendAlone run.settings run.rules device id src).1,
      (run.disk.mendAlone run.settings run.rules device id src).2, rfl, .mended rfl fun _ _ => rfl,
      hmended.frame.1, hmended.frame.2, fun _ => hmended.not_cancelled⟩

/-- All the jobs of a run, each in its turn. -/
theorem steps_separately (hquiet : around.interfere = fun _ d => d)
    (hapart : run.todo.Pairwise run.disk.Apart) :
    ∃ results disk, run.steps around run.todo.length =
        { run with todo := [], results := run.results ++ results, disk } ∧
      Separately run.settings run.rules run.disk (run.jobs around) results disk ∧
      (around.Patient run.settings → ∀ result ∈ results, result.outcome.status ≠ .cancelled) := by
  obtain ⟨todo, htodo⟩ : ∃ todo, run.todo = todo := ⟨_, rfl⟩
  induction todo generalizing run with
  | nil =>
    refine ⟨[], run.disk, ?_, ?_, by simp⟩
    · rw [htodo, List.length_nil, steps, List.append_nil, ← htodo]
    · unfold jobs
      rw [htodo]
      exact .nil _ _ _
  | cons src rest ih =>
    rw [htodo] at hapart
    obtain ⟨hsrc, hrest⟩ := List.pairwise_cons.1 hapart
    obtain ⟨result, disk, hstep, htreated, htree, hframe, hgoes⟩ := step_treated htodo
      (around.device run.results.length) (around.tempId run.results.length) (run.isStopped around)
    have hrest : rest.Pairwise disk.Apart := by
      refine hrest.imp fun {a b} hab => ?_
      unfold Disk.Apart at hab ⊢
      rwa [htree.locate_eq, htree.locate_eq]
    obtain ⟨results, last, hsteps, hseparately, hall⟩ := @ih
      { run with todo := rest, results := run.results ++ [result], disk } hrest rfl
    refine ⟨result :: results, last, ?_, ?_, fun hpatient => ?_⟩
    · dsimp only at hsteps
      rw [htodo, List.length_cons, steps, hquiet, hstep, hsteps, List.append_assoc]
      rfl
    · rw [jobs_cons htodo result disk]
      refine Separately.cons htreated htree hframe hseparately fun j hj => ?_
      obtain ⟨i, hi, rfl⟩ := List.mem_mapIdx.1 hj
      exact hsrc _ (List.getElem_mem hi)
    · refine List.forall_mem_cons.2 ⟨hgoes ?_, hall hpatient⟩
      simp [isStopped, hpatient run.results.length]

/-- The files of a run that all leave the disk as it is. -/
theorem steps_still {result : SourceFile → FileResult} (hpatient : around.Patient run.settings)
    (hstill : ∀ src ∈ run.todo, ∀ device id,
      run.disk.mend run.settings run.rules device id around.interfere src =
        (result src, run.disk)) :
    run.steps around run.todo.length =
      { run with todo := [], results := run.results ++ run.todo.map result } := by
  obtain ⟨todo, htodo⟩ : ∃ todo, run.todo = todo := ⟨_, rfl⟩
  induction todo generalizing run with
  | nil => rw [htodo, List.length_nil, steps, List.map_nil, List.append_nil, ← htodo]
  | cons src rest ih =>
    rw [htodo] at hstill
    obtain ⟨hsrc, hstill⟩ := List.forall_mem_cons.1 hstill
    have hgoes : run.isStopped around = false := by simp [isStopped, hpatient run.results.length]
    have hstep : run.step (around.device run.results.length) (around.tempId run.results.length)
        around.interfere (run.isStopped around) =
        { run with todo := rest, results := run.results ++ [result src] } := by
      unfold step
      rw [htodo, hgoes]
      dsimp only
      rw [hsrc]
      rfl
    have hrest := @ih { run with todo := rest, results := run.results ++ [result src] } hpatient
      hstill rfl
    dsimp only at hrest
    rw [htodo, List.length_cons, steps, hstep, hrest, List.append_assoc]
    rfl

theorem map_source_jobs (run : Run) (around : Surroundings) :
    (run.jobs around).map Job.source = run.todo := by
  unfold jobs
  refine List.ext_getElem (by simp) fun i hi hi' => ?_
  rw [List.getElem_map, List.getElem_mapIdx]

end Run

/-- A report without what differs from one run to the next: its id and its times. -/
def Report.undated (r : Report) : Report :=
  { r with run := { r.run with runId := "", startedAt := "", endedAt := none, durationMs := none } }

/-- A run that nobody disturbs gives a report, with every job as if it were the only one. -/
theorem runRepair_separately {run : Run} {around : Surroundings} (tool : ToolInfo)
    (hstart : Run.start settings rules d = .ok run) (hquiet : around.interfere = fun _ d => d)
    (hdistinct : (Run.sources settings d).Pairwise d.Apart) :
    ∃ results d', runRepair settings rules tool around d =
        (.ok (({ run with todo := [], results, disk := d' } : Run).report tool around), d') ∧
      Separately settings rules d (run.jobs around) results d' ∧
      (around.Patient settings → ∀ result ∈ results, result.outcome.status ≠ .cancelled) := by
  have hrun : runRepair settings rules tool around d =
      (.ok ((run.steps around run.todo.length).report tool around),
        (run.steps around run.todo.length).disk) := by
    unfold runRepair
    rw [hstart]
  obtain ⟨rfl, rfl, htodo, hresults, rfl⟩ := Run.start_eq_ok hstart
  rw [← htodo] at hdistinct
  obtain ⟨results, disk, hsteps, hseparately, hall⟩ := Run.steps_separately hquiet hdistinct
  rw [hsteps, hresults, List.nil_append] at hrun
  exact ⟨results, disk, hrun, hseparately, hall⟩

/-- A run over files that all leave the disk as it is. -/
theorem runRepair_still {run : Run} {around : Surroundings} (tool : ToolInfo)
    (hstart : Run.start settings rules d = .ok run) (hpatient : around.Patient settings)
    {result : SourceFile → FileResult} (hstill : ∀ src ∈ run.todo, ∀ device id,
      d.mend settings rules device id around.interfere src = (result src, d)) :
    runRepair settings rules tool around d =
      (.ok (({ run with todo := [], results := run.todo.map result } : Run).report tool around),
        d) := by
  obtain ⟨rfl, rfl, -, hresults, rfl⟩ := Run.start_eq_ok hstart
  have hsteps := Run.steps_still hpatient hstill
  rw [hresults, List.nil_append] at hsteps
  unfold runRepair
  rw [hstart]
  exact congrArg (fun r : Run => (Except.ok (r.report tool around), r.disk)) hsteps

end SourceMend
