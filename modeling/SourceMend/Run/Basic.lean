import SourceMend.Report.Totals
import SourceMend.Run.Job

/-!
A run: the walk, the work on every file, and the report. Errors that come before the first file
leave the disk as it is; a problem with one file is part of the report and does not stop the run.
-/
namespace SourceMend

/-- Why a run does not start. -/
inductive RunError where
  | rules (cause : RuleError)
  | walk (cause : WalkError)
  | settings (text : String)
  deriving DecidableEq, Inhabited

def RunError.message : RunError → String
  | .rules cause => s!"invalid rule set: {cause.message}"
  | .walk cause => cause.message
  | .settings text => s!"invalid settings: {text}"

/-- What a run needs to know of the world around it. -/
structure Surroundings where
  runId : String := ""
  startedAt : String := ""
  endedAt : Option String := none
  durationMs : Option UInt64 := none
  /-- The name of the temporary file of the file with this number. -/
  tempId : Nat → String := fun n => toString n
  /-- The seconds that have passed when the file with this number is due. -/
  elapsed : Nat → Nat := fun _ => 0
  /-- Whether the run was called off before the file with this number. -/
  calledOff : Nat → Bool := fun _ => false
  /-- What others do to a file between its reading and its commit. -/
  interfere : String → Disk → Disk := fun _ d => d
  /-- What the device has against the commit of the file with this number. -/
  device : Nat → Device := fun _ => .sound

/-- A run on its way. -/
structure Run where
  settings : Settings
  rules : RuleSet
  skipped : List SkippedPath
  todo : List SourceFile
  results : List FileResult := []
  disk : Disk

namespace Run

def checkSettings (s : Settings) : Except RunError Unit :=
  if s.maxPasses = 0 then .error (.settings "max_passes must be at least 1")
  else if s.roots.isEmpty then .error (.settings "no roots to scan")
  else if s.jobs = some 0 then .error (.settings "jobs must be at least 1")
  else .ok ()

def exclusion (s : Settings) : Except WalkError Exclusion :=
  let start : Exclusion := if s.defaultExcludes then .standard else {}
  (start.addAll s.exclude).mapError .invalidExclude

/-- The walk that the settings ask for. -/
def entries (s : Settings) (d : Disk) : Except WalkError (List WalkEntry) := do
  let exclusion ← exclusion s
  (Walker.of s.roots s.extensions exclusion).walk d

def start (settings : Settings) (rules : RuleSet) (d : Disk) : Except RunError Run := do
  checkSettings settings
  let found ← (entries settings d).mapError .walk
  return {
    settings
    rules
    skipped := found.filterMap WalkEntry.skipped?
    todo := found.filterMap WalkEntry.source?
    disk := d }

/-- Whether the deadline is over after `elapsed` seconds. -/
def isOver (s : Settings) (elapsed : Nat) : Bool := s.timeoutSecs.any (·.toNat ≤ elapsed)

/-- Takes the next file on, or gives it up when the run is `stopped`. -/
def step (run : Run) (device : Device) (id : String) (interfere : String → Disk → Disk)
    (stopped : Bool) : Run :=
  match run.todo with
  | [] => run
  | src :: rest =>
    if stopped then
      { run with todo := rest, results := run.results ++ [FileResult.cancelled src] }
    else
      let (result, disk) := run.disk.mend run.settings run.rules device id interfere src
      { run with todo := rest, results := run.results ++ [result], disk }

/-- Whether the run has stopped when the next file is due. -/
def isStopped (run : Run) (around : Surroundings) : Bool :=
  let n := run.results.length
  around.calledOff n || isOver run.settings (around.elapsed n)

/-- The next `n` files. -/
def steps (around : Surroundings) : Nat → Run → Run
  | 0, run => run
  | n + 1, run =>
    let number := run.results.length
    steps around n (run.step (around.device number) (around.tempId number) around.interfere
      (run.isStopped around))

/-- The fires by the category of the rule. -/
def firesByCategory (rules : RuleSet) (fires : Tally) : Tally :=
  fires.entries.foldl
    (fun t (rule, n) => t.add ((rules.categoryOf? rule).getD "unknown") n) Tally.empty

def report (run : Run) (tool : ToolInfo) (around : Surroundings) : Report :=
  let r : Report := {
    schema := Report.schemaName
    tool
    run := {
      runId := around.runId
      startedAt := around.startedAt
      endedAt := around.endedAt
      durationMs := around.durationMs
      dryRun := run.settings.dryRun
      maxPasses := run.settings.maxPasses
      rulesetVersion := run.rules.version
      rulesLoaded := run.rules.rules.length.toUInt64 }
    files := run.results.map (·.outcome)
    findings := run.results.flatMap (·.findings)
    skipped := run.skipped }
  let r := r.finalize
  { r with firesByCategory := firesByCategory run.rules r.firesByRule }

end Run

/-- The exit code of a run that has a report. -/
def Report.exitCode (r : Report) : Nat := if r.isClean then 0 else 1

/-- A whole run: the report and the disk after it. -/
def runRepair (settings : Settings) (rules : RuleSet) (tool : ToolInfo) (around : Surroundings)
    (d : Disk) : Except RunError Report × Disk :=
  match Run.start settings rules d with
  | .error error => (.error error, d)
  | .ok run =>
    let run := run.steps around run.todo.length
    (.ok (run.report tool around), run.disk)

end SourceMend
