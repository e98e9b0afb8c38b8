import SourceMend.Proofs.Run.Alone

/-!
Several workers on one disk. The work on a file falls into steps, between which the work on other
files may go on: a worker takes the file on, reads it, stages the new content, checks that the
target is still what it was, puts the new content in its place, and if that fails discards it. A
turn is one step of one file, so that a list of turns is one way in which the steps of all files
follow each other.
-/
namespace SourceMend

/-- How far the work on a file has come. -/
inductive Progress where
  | waiting
  /-- Taken on, and about to be read. -/
  | begun
  /-- Read, and about to get a new content. -/
  | planned (plan : FilePlan)
  | staged (plan : FilePlan) (write : StagedWrite)
  /-- The target is what it was, and about to be replaced. -/
  | checked (plan : FilePlan) (write : StagedWrite)
  /-- The target is not what it was or the device failed, and the staged content is about to be
  discarded. -/
  | refused (plan : FilePlan) (write : StagedWrite) (cause : CommitError)
  | finished (result : FileResult)

namespace Progress

def result? : Progress → Option FileResult
  | .finished result => some result
  | _ => none

/-- The steps that are done at least. -/
def rank : Progress → Nat
  | .waiting => 0
  | .begun => 1
  | .planned _ => 2
  | .staged _ _ => 3
  | .checked _ _ => 4
  | .refused _ _ _ => 5
  | .finished _ => 6

end Progress

/-- The next step of a job. A job is given up only if the run is `stopped` when it is taken on. -/
def Job.step (settings : Settings) (rules : RuleSet) (job : Job) (stopped : Bool) (d : Disk) :
    Progress → Progress × Disk
  | .waiting => (if stopped then .finished (.cancelled job.source) else .begun, d)
  | .begun =>
    match d.readRecord job.source.path with
    | .error fault => (.finished (.unreadable job.source fault), d)
    | .ok record =>
      let plan := FilePlan.make settings rules job.source record
      (if plan.commits then .planned plan else .finished (plan.done rules), d)
  | .planned plan =>
    match d.stage job.device job.id plan.record plan.final with
    | (.error cause, d') => (.finished (plan.failed cause), d')
    | (.ok write, d') => (.staged plan write, d')
  | .staged plan write =>
    match d.inspect job.device write with
    | .error cause => (.refused plan write cause, d)
    | .ok () => (.checked plan write, d)
  | .checked plan write =>
    match d.install job.device write with
    | .error fault => (.refused plan write (.refused write.target fault), d)
    | .ok d' => (.finished (plan.afterCommit rules (.ok write.receipt)), d')
  | .refused plan write cause => (.finished (plan.failed cause), d.discard write)
  | .finished result => (.finished result, d)

/-- A job, and how far it has come. -/
structure Post where
  job : Job
  progress : Progress := .waiting

/-- Several jobs under way on one disk. -/
structure Crew where
  disk : Disk
  posts : List Post

/-- One step of the job with this number, taken while the run is `stopped` or goes on. -/
structure Turn where
  post : Nat
  stopped : Bool := false
  deriving DecidableEq

namespace Crew

/-- A worker takes a turn. -/
def step (settings : Settings) (rules : RuleSet) (crew : Crew) (turn : Turn) : Crew :=
  match crew.posts[turn.post]? with
  | none => crew
  | some post =>
    let (progress, disk) := post.job.step settings rules turn.stopped crew.disk post.progress
    { disk, posts := crew.posts.set turn.post { post with progress } }

def run (settings : Settings) (rules : RuleSet) (crew : Crew) (turns : List Turn) : Crew :=
  turns.foldl (step settings rules) crew

def Finished (crew : Crew) : Prop := ∀ post ∈ crew.posts, post.progress.result?.isSome

instance (crew : Crew) : Decidable crew.Finished :=
  inferInstanceAs (Decidable (∀ post ∈ crew.posts, _))

/-- The results so far, in the order of the jobs. -/
def results (crew : Crew) : List FileResult := crew.posts.filterMap (·.progress.result?)

end Crew

/-- The crew that is to do the work of a run. -/
def Run.crew (run : Run) (around : Surroundings) : Crew where
  disk := run.disk
  posts := (run.jobs around).map fun job => { job }

/-- The report of a run whose work a crew has done. -/
def Crew.report (crew : Crew) (run : Run) (tool : ToolInfo) (around : Surroundings) : Report :=
  ({ run with todo := [], results := crew.results, disk := crew.disk } : Run).report tool around

/-! A turn is a step of its own job -/

section
variable {settings : Settings} {rules : RuleSet} {crew : Crew} {turn : Turn}

theorem Crew.step_of_some {post : Post} (h : crew.posts[turn.post]? = some post) :
    crew.step settings rules turn =
      { disk := (post.job.step settings rules turn.stopped crew.disk post.progress).2
        posts := crew.posts.set turn.post { post with
          progress :=
            (post.job.step settings rules turn.stopped crew.disk post.progress).1 } } := by
  unfold step
  rw [h]

theorem Crew.step_of_none (h : crew.posts[turn.post]? = none) :
    crew.step settings rules turn = crew := by
  unfold step
  rw [h]

theorem Crew.map_job_step (settings : Settings) (rules : RuleSet) (crew : Crew) (turn : Turn) :
    (crew.step settings rules turn).posts.map Post.job = crew.posts.map Post.job := by
  cases h : crew.posts[turn.post]? with
  | none => rw [step_of_none h]
  | some post =>
    rw [step_of_some h, List.map_set]
    refine List.ext_getElem? fun i => ?_
    rw [List.getElem?_set]
    split
    next heq =>
      subst heq
      rw [List.length_map, if_pos (List.getElem?_eq_some_iff.1 h).1, List.getElem?_map, h]
      rfl
    next => rfl

theorem Crew.map_job_run (settings : Settings) (rules : RuleSet) (crew : Crew)
    (turns : List Turn) :
    (crew.run settings rules turns).posts.map Post.job = crew.posts.map Post.job := by
  induction turns generalizing crew with
  | nil => rfl
  | cons turn turns ih => exact (ih _).trans (crew.map_job_step settings rules turn)

/-! Jobs get done -/

/-- A step takes a job further, unless it is done. -/
theorem Job.rank_step (job : Job) (stopped : Bool) (d : Disk) (p : Progress) :
    min 6 (p.rank + 1) ≤ (job.step settings rules stopped d p).1.rank := by
  fun_cases Job.step settings rules job stopped d p with
  | case1 | case3 =>
    dsimp only
    split <;> simp [Progress.rank]
  | _ => simp [Progress.rank]

/-- The rank of the job with this number; there is nothing to do for a number without a job. -/
def Crew.rankAt (crew : Crew) (i : Nat) : Nat := crew.posts[i]?.elim 6 (·.progress.rank)

theorem Crew.rankAt_step (settings : Settings) (rules : RuleSet) (crew : Crew) (turn : Turn)
    (i : Nat) :
    min 6 (crew.rankAt i + if turn.post = i then 1 else 0) ≤
      (crew.step settings rules turn).rankAt i := by
  cases h : crew.posts[turn.post]? with
  | none =>
    rw [step_of_none h]
    split
    next heq =>
      unfold rankAt
      rw [← heq, h]
      simp
    next => omega
  | some post =>
    rw [step_of_some h]
    unfold rankAt
    dsimp only
    rw [List.getElem?_set]
    split
    next heq =>
      subst heq
      have hlt := (List.getElem?_eq_some_iff.1 h).1
      rw [if_pos hlt, h]
      exact post.job.rank_step turn.stopped crew.disk post.progress
    next => omega

theorem Crew.rankAt_run (settings : Settings) (rules : RuleSet) (crew : Crew) (turns : List Turn)
    (i : Nat) :
    min 6 (crew.rankAt i + turns.countP (·.post = i)) ≤
      (crew.run settings rules turns).rankAt i := by
  induction turns generalizing crew with
  | nil => exact Nat.min_le_right _ _
  | cons turn turns ih =>
    have hstep := crew.rankAt_step settings rules turn i
    have hrest := ih (crew.step settings rules turn)
    unfold run at hrest ⊢
    rw [List.foldl_cons, List.countP_cons]
    simp only [decide_eq_true_eq] at *
    omega

/-- A crew whose jobs have all had six turns has finished. -/
theorem Crew.finished_run (crew : Crew) {turns : List Turn}
    (h : ∀ i < crew.posts.length, 6 ≤ turns.countP (·.post = i)) :
    (crew.run settings rules turns).Finished := by
  intro post hpost
  obtain ⟨i, hi, rfl⟩ := List.getElem_of_mem hpost
  have hlength : (crew.run settings rules turns).posts.length = crew.posts.length := by
    simpa using congrArg List.length (crew.map_job_run settings rules turns)
  have hrank := crew.rankAt_run settings rules turns i
  have hcount := h i (hlength ▸ hi)
  unfold rankAt at hrank
  rw [List.getElem?_eq_getElem hi] at hrank
  have hrank : 6 ≤ ((crew.run settings rules turns).posts[i]).progress.rank := by
    refine le_trans ?_ hrank
    omega
  revert hrank
  cases ((crew.run settings rules turns).posts[i]).progress <;>
    simp [Progress.rank, Progress.result?]

end
end SourceMend
