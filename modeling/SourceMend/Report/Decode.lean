import SourceMend.Json.Fields
import SourceMend.Json.Reader
import SourceMend.Report.Basic

/-! Reading a report from JSON. Totals and lists may be missing; unknown members do not matter. -/
namespace SourceMend

open Json

def Tally.ofJson? (v : Json) : Option Tally := (asMembers asUInt64 v).map Tally.ofList

def Location.ofJson? (v : Json) : Option Location := do
  let f ← Fields.of? ["line", "col"] v
  return { line := ← f.required "line" asUInt64, col := ← f.required "col" asUInt64 }

def Finding.ofJson? (v : Json) : Option Finding := do
  let f ← Fields.of?
    ["path", "rule_id", "category", "class", "severity", "location", "excerpt", "message"] v
  return {
    path := ← f.required "path" asString
    ruleId := ← f.required "rule_id" asString
    category := ← f.required "category" asString
    kind := ← f.required "class" (asName FindingClass.ofName?)
    severity := ← f.required "severity" (asName Severity.ofName?)
    location := ← f.required "location" Location.ofJson?
    excerpt := ← f.required "excerpt" asString
    message := ← f.optional "message" asString }

/-- The state comes first when the value is an array. -/
def Convergence.ofJson? (v : Json) : Option Convergence := do
  let f ← Fields.of? ["state", "period"] v
  match ← f.required "state" asString with
  | "converged" => settled .converged v
  | "exhausted" => settled .exhausted v
  | "not_run" => settled .notRun v
  | "oscillating" => return .oscillating (← f.required "period" asUInt32)
  | _ => none
where
  /-- A state that has no period. -/
  settled (c : Convergence) : Json → Option Convergence
    | .array (_ :: _ :: _) => none
    | _ => some c

def FileOutcome.ofJson? (v : Json) : Option FileOutcome := do
  let f ← Fields.of?
    ["path", "status", "convergence", "passes_used", "passes_executed", "written", "fires",
      "sha256_before", "sha256_after", "error", "patch"] v
  return {
    path := ← f.required "path" asString
    status := ← f.required "status" (asName FileStatus.ofName?)
    convergence := ← f.required "convergence" Convergence.ofJson?
    passesUsed := ← f.required "passes_used" asUInt32
    passesExecuted := ← f.required "passes_executed" asUInt32
    written := ← f.withDefault "written" false asBool
    fires := ← f.withDefault "fires" Tally.empty Tally.ofJson?
    sha256Before := ← f.optional "sha256_before" asString
    sha256After := ← f.optional "sha256_after" asString
    error := ← f.optional "error" asString
    patch := ← f.optional "patch" asString }

def ToolInfo.ofJson? (v : Json) : Option ToolInfo := do
  let f ← Fields.of? ["name", "version", "commit"] v
  return {
    name := ← f.required "name" asString
    version := ← f.optional "version" asString
    commit := ← f.optional "commit" asString }

def RunInfo.ofJson? (v : Json) : Option RunInfo := do
  let f ← Fields.of?
    ["run_id", "started_at", "ended_at", "duration_ms", "dry_run", "max_passes",
      "ruleset_version", "rules_loaded"] v
  return {
    runId := ← f.required "run_id" asString
    startedAt := ← f.required "started_at" asString
    endedAt := ← f.optional "ended_at" asString
    durationMs := ← f.optional "duration_ms" asUInt64
    dryRun := ← f.withDefault "dry_run" false asBool
    maxPasses := ← f.required "max_passes" asUInt32
    rulesetVersion := ← f.required "ruleset_version" asUInt32
    rulesLoaded := ← f.required "rules_loaded" asUInt64 }

def Verdict.ofJson? (v : Json) : Option Verdict := do
  let f ← Fields.of? ["status", "reasons"] v
  return {
    status := ← f.required "status" (asName VerdictStatus.ofName?)
    reasons := ← f.withDefault "reasons" [] (asList asString) }

def Summary.ofJson? (v : Json) : Option Summary := do
  let f ← Fields.of?
    ["files_scanned", "files_modified", "files_unchanged", "files_failed", "files_held",
      "files_non_converged", "files_skipped", "files_cancelled", "findings_fix_failed",
      "findings_residual"] v
  return {
    filesScanned := ← f.required "files_scanned" asUInt64
    filesModified := ← f.required "files_modified" asUInt64
    filesUnchanged := ← f.required "files_unchanged" asUInt64
    filesFailed := ← f.required "files_failed" asUInt64
    filesHeld := ← f.withDefault "files_held" 0 asUInt64
    filesNonConverged := ← f.withDefault "files_non_converged" 0 asUInt64
    filesSkipped := ← f.withDefault "files_skipped" 0 asUInt64
    filesCancelled := ← f.withDefault "files_cancelled" 0 asUInt64
    findingsFixFailed := ← f.withDefault "findings_fix_failed" 0 asUInt64
    findingsResidual := ← f.withDefault "findings_residual" 0 asUInt64 }

def SkippedPath.ofJson? (v : Json) : Option SkippedPath := do
  let f ← Fields.of? ["path", "reason"] v
  return { path := ← f.required "path" asString, reason := ← f.required "reason" asString }

namespace Report

def ofJson? (v : Json) : Option Report := do
  let f ← Fields.of?
    ["schema", "tool", "run", "verdict", "summary", "fires_by_category", "fires_by_rule", "files",
      "findings", "non_converged", "skipped"] v
  return {
    schema := ← f.required "schema" asString
    tool := ← f.required "tool" ToolInfo.ofJson?
    run := ← f.required "run" RunInfo.ofJson?
    verdict := ← f.required "verdict" Verdict.ofJson?
    summary := ← f.required "summary" Summary.ofJson?
    firesByCategory := ← f.withDefault "fires_by_category" Tally.empty Tally.ofJson?
    firesByRule := ← f.withDefault "fires_by_rule" Tally.empty Tally.ofJson?
    files := ← f.withDefault "files" [] (asList FileOutcome.ofJson?)
    findings := ← f.withDefault "findings" [] (asList Finding.ofJson?)
    nonConverged := ← f.withDefault "non_converged" [] (asList asString)
    skipped := ← f.withDefault "skipped" [] (asList SkippedPath.ofJson?) }

/-- Reads the written form of a report. -/
def parse? (text : String) : Option Report := (Json.parse? text.toList).bind ofJson?

end Report
end SourceMend
