import SourceMend.Json.Printer
import SourceMend.Report.Basic

/-! The JSON form of a report. Optional values that are missing are left out. -/
namespace SourceMend

/-- A member that is left out when there is no value. -/
def Json.member? (key : String) (value : Option Json) : List (String × Json) :=
  (value.map fun v => (key, v)).toList

def Json.uint32 (n : UInt32) : Json := .nat n.toNat

def Json.uint64 (n : UInt64) : Json := .nat n.toNat

def Tally.toJson (t : Tally) : Json := .object (t.entries.map fun (key, n) => (key, .uint64 n))

def Location.toJson (l : Location) : Json :=
  .object [("line", .uint64 l.line), ("col", .uint64 l.col)]

def Finding.toJson (f : Finding) : Json :=
  .object <|
    [("path", .string f.path), ("rule_id", .string f.ruleId), ("category", .string f.category),
      ("class", .string f.kind.name), ("severity", .string f.severity.name),
      ("location", f.location.toJson), ("excerpt", .string f.excerpt)] ++
    Json.member? "message" (f.message.map .string)

def Convergence.toJson : Convergence → Json
  | .converged => .object [("state", .string "converged")]
  | .oscillating period => .object [("state", .string "oscillating"), ("period", .uint32 period)]
  | .exhausted => .object [("state", .string "exhausted")]
  | .notRun => .object [("state", .string "not_run")]

def FileOutcome.toJson (f : FileOutcome) : Json :=
  .object <|
    [("path", .string f.path), ("status", .string f.status.name),
      ("convergence", f.convergence.toJson), ("passes_used", .uint32 f.passesUsed),
      ("passes_executed", .uint32 f.passesExecuted), ("written", .bool f.written)] ++
    (if f.fires.isEmpty then [] else [("fires", f.fires.toJson)]) ++
    Json.member? "sha256_before" (f.sha256Before.map .string) ++
    Json.member? "sha256_after" (f.sha256After.map .string) ++
    Json.member? "error" (f.error.map .string) ++
    Json.member? "patch" (f.patch.map .string)

def ToolInfo.toJson (t : ToolInfo) : Json :=
  .object <| ("name", .string t.name) ::
    Json.member? "version" (t.version.map .string) ++
    Json.member? "commit" (t.commit.map .string)

def RunInfo.toJson (r : RunInfo) : Json :=
  .object <|
    [("run_id", .string r.runId), ("started_at", .string r.startedAt)] ++
    Json.member? "ended_at" (r.endedAt.map .string) ++
    Json.member? "duration_ms" (r.durationMs.map .uint64) ++
    [("dry_run", .bool r.dryRun), ("max_passes", .uint32 r.maxPasses),
      ("ruleset_version", .uint32 r.rulesetVersion), ("rules_loaded", .uint64 r.rulesLoaded)]

def Verdict.toJson (v : Verdict) : Json :=
  .object <| ("status", .string v.status.name) ::
    if v.reasons.isEmpty then [] else [("reasons", .array (v.reasons.map .string))]

def Summary.toJson (s : Summary) : Json :=
  .object [
    ("files_scanned", .uint64 s.filesScanned),
    ("files_modified", .uint64 s.filesModified),
    ("files_unchanged", .uint64 s.filesUnchanged),
    ("files_failed", .uint64 s.filesFailed),
    ("files_held", .uint64 s.filesHeld),
    ("files_non_converged", .uint64 s.filesNonConverged),
    ("files_skipped", .uint64 s.filesSkipped),
    ("files_cancelled", .uint64 s.filesCancelled),
    ("findings_fix_failed", .uint64 s.findingsFixFailed),
    ("findings_residual", .uint64 s.findingsResidual)]

def SkippedPath.toJson (s : SkippedPath) : Json :=
  .object [("path", .string s.path), ("reason", .string s.reason)]

namespace Report

def toJson (r : Report) : Json :=
  .object [
    ("schema", .string r.schema),
    ("tool", r.tool.toJson),
    ("run", r.run.toJson),
    ("verdict", r.verdict.toJson),
    ("summary", r.summary.toJson),
    ("fires_by_category", r.firesByCategory.toJson),
    ("fires_by_rule", r.firesByRule.toJson),
    ("files", .array (r.files.map (·.toJson))),
    ("findings", .array (r.findings.map (·.toJson))),
    ("non_converged", .array (r.nonConverged.map .string)),
    ("skipped", .array (r.skipped.map (·.toJson)))]

/-- The report as it is written to a file. -/
def toJsonString (r : Report) : String := r.toJson.toPrettyString

end Report
end SourceMend
