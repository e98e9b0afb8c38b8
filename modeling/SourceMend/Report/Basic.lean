import SourceMend.Finding
import SourceMend.Repair

/-! The report of a run: what became of every file, and what the rules have left behind. -/
namespace SourceMend

structure ToolInfo where
  name : String
  version : Option String := none
  commit : Option String := none
  deriving DecidableEq, Repr, Inhabited

structure RunInfo where
  runId : String
  startedAt : String
  endedAt : Option String := none
  durationMs : Option UInt64 := none
  dryRun : Bool := false
  maxPasses : UInt32
  /-- The version of the rule set the run was made with. -/
  rulesetVersion : UInt32
  rulesLoaded : UInt64
  deriving DecidableEq, Repr, Inhabited

inductive VerdictStatus where
  | pass
  | warn
  | fail
  deriving DecidableEq, Repr, Inhabited

namespace VerdictStatus

def name : VerdictStatus → String
  | .pass => "pass"
  | .warn => "warn"
  | .fail => "fail"

def ofName? : String → Option VerdictStatus
  | "pass" => some .pass
  | "warn" => some .warn
  | "fail" => some .fail
  | _ => none

end VerdictStatus

structure Verdict where
  status : VerdictStatus := .pass
  reasons : List String := []
  deriving DecidableEq, Repr, Inhabited

structure Summary where
  filesScanned : UInt64 := 0
  filesModified : UInt64 := 0
  filesUnchanged : UInt64 := 0
  filesFailed : UInt64 := 0
  /-- Files without a fixed point that were left as they were. -/
  filesHeld : UInt64 := 0
  filesNonConverged : UInt64 := 0
  filesSkipped : UInt64 := 0
  filesCancelled : UInt64 := 0
  findingsFixFailed : UInt64 := 0
  findingsResidual : UInt64 := 0
  deriving DecidableEq, Repr, Inhabited

inductive FileStatus where
  /-- The content changed, or would change without a dry run. -/
  | modified
  | unchanged
  /-- The repair found no fixed point and the file was left as it was. -/
  | held
  | failed
  /-- Not started before the deadline. -/
  | cancelled
  deriving DecidableEq, Repr, Inhabited

namespace FileStatus

def name : FileStatus → String
  | .modified => "modified"
  | .unchanged => "unchanged"
  | .held => "held"
  | .failed => "failed"
  | .cancelled => "cancelled"

def ofName? : String → Option FileStatus
  | "modified" => some .modified
  | "unchanged" => some .unchanged
  | "held" => some .held
  | "failed" => some .failed
  | "cancelled" => some .cancelled
  | _ => none

end FileStatus

structure FileOutcome where
  path : String
  status : FileStatus
  convergence : Convergence := .notRun
  passesUsed : UInt32 := 0
  passesExecuted : UInt32 := 0
  /-- Whether the new content reached the disk. -/
  written : Bool := false
  fires : Tally := Tally.empty
  sha256Before : Option String := none
  sha256After : Option String := none
  error : Option String := none
  /-- The patch of the change. -/
  patch : Option String := none
  deriving DecidableEq, Inhabited

structure SkippedPath where
  path : String
  reason : String
  deriving DecidableEq, Repr, Inhabited

structure Report where
  schema : String
  tool : ToolInfo
  run : RunInfo
  verdict : Verdict := {}
  summary : Summary := {}
  firesByCategory : Tally := Tally.empty
  firesByRule : Tally := Tally.empty
  files : List FileOutcome := []
  findings : List Finding := []
  /-- The paths of the files without a fixed point. -/
  nonConverged : List String := []
  skipped : List SkippedPath := []
  deriving DecidableEq, Inhabited

namespace Report

def schemaName : String := "syntaxfix.report.v1"

/-- Whether no file failed or found no fixed point, and no fix failed. -/
def isClean (r : Report) : Bool :=
  r.summary.filesFailed = 0 && r.summary.filesNonConverged = 0 && r.summary.findingsFixFailed = 0

def modifiedPaths (r : Report) : List String :=
  (r.files.filter (·.status = .modified)).map (·.path)

end Report
end SourceMend
