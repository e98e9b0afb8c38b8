import SourceMend.Report.Basic

/-! The report for people: as plain text for the console, and as markdown. -/
namespace SourceMend.Report

def passesLabel (n : UInt32) : String := if n = 1 then "1 pass" else s!"{n.toNat} passes"

/-- Fills up with blanks on the left. -/
def padLeft (width : Nat) (s : String) : String :=
  String.ofList (List.replicate (width - s.length) ' ') ++ s

/-- The line for a file on the console. Files without news have none, and those that were not
started have one only when `verbose`. -/
def fileLine (dryRun verbose : Bool) (f : FileOutcome) : String :=
  match f.status with
  | .modified =>
    let verb := if dryRun then "would modify" else "modified"
    s!"{verb} {f.path} ({passesLabel f.passesUsed})\n"
  | .held | .failed =>
    let error := f.error.getD "-"
    s!"{f.status.name} {f.path}: {error}\n"
  | .cancelled => if verbose then s!"cancelled {f.path}\n" else ""
  | .unchanged => ""

def fileText (dryRun verbose : Bool) (f : FileOutcome) : String :=
  fileLine dryRun verbose f ++ if dryRun then f.patch.getD "" else ""

def place (f : Finding) : String :=
  s!"{f.path}:{f.location.line.toNat}:{f.location.col.toNat}"

def findingLine (f : Finding) : String :=
  s!"{place f} {f.severity.name} {f.kind.name} {f.ruleId} `{f.excerpt}`"

/-- The findings, numbered from `n` on. -/
def numberedFindings : Nat → List Finding → String
  | _, [] => ""
  | n, f :: fs => s!"{padLeft 4 (toString n)}. {findingLine f}\n" ++ numberedFindings (n + 1) fs

/-- The console text: a line for each file that changed or has a problem, the summary, and the
findings; the skipped paths only when `verbose`. -/
def toText (r : Report) (verbose : Bool) : String :=
  let s := r.summary
  String.join (r.files.map (fileText r.run.dryRun verbose)) ++
  (if r.files.isEmpty then "" else "\n") ++
  s!"scanned {s.filesScanned.toNat}, modified {s.filesModified.toNat}, " ++
  s!"unchanged {s.filesUnchanged.toNat}, failed {s.filesFailed.toNat}, " ++
  s!"held {s.filesHeld.toNat}, skipped {s.filesSkipped.toNat}, " ++
  s!"cancelled {s.filesCancelled.toNat}\n" ++
  s!"findings: {s.findingsFixFailed.toNat} fix_failed, {s.findingsResidual.toNat} residual\n" ++
  s!"verdict: {r.verdict.status.name}\n" ++
  (if r.findings.isEmpty then "" else "\nfindings:\n" ++ numberedFindings 1 r.findings) ++
  if verbose && !r.skipped.isEmpty then
    "\nskipped:\n" ++ String.join (r.skipped.map fun k => s!"  {k.path}: {k.reason}\n")
  else ""

def convergenceLabel : Convergence → String
  | .converged => "converged"
  | .oscillating period => s!"oscillating (period {period.toNat})"
  | .exhausted => "exhausted"
  | .notRun => "-"

def markdownHead (r : Report) : String :=
  let s := r.summary
  let reasons := String.intercalate ", " r.verdict.reasons
  "# syntaxfix report\n\n" ++
  s!"- Verdict: `{r.verdict.status.name}`\n" ++
  (if r.verdict.reasons.isEmpty then "" else s!"- Reasons: {reasons}\n") ++
  s!"- Rule set: version {r.run.rulesetVersion.toNat} ({r.run.rulesLoaded.toNat} rules)\n" ++
  s!"- Max passes: {r.run.maxPasses.toNat}\n" ++
  (if r.run.dryRun then "- Dry run: nothing was written\n" else "") ++
  s!"- Files: {s.filesScanned.toNat} scanned, {s.filesModified.toNat} modified, " ++
  s!"{s.filesUnchanged.toNat} unchanged, {s.filesFailed.toNat} failed, " ++
  s!"{s.filesHeld.toNat} held, {s.filesSkipped.toNat} skipped, " ++
  s!"{s.filesCancelled.toNat} cancelled\n\n"

def markdownCategories (r : Report) : String :=
  if r.firesByCategory.isEmpty then ""
  else
    "## Rewrites by category\n\n| Category | Rewrites |\n|---|---|\n" ++
    String.join (r.firesByCategory.entries.map fun (category, n) =>
      s!"| `{category}` | {n.toNat} |\n") ++ "\n"

def markdownFile (f : FileOutcome) : String :=
  s!"| `{f.path}` | {f.status.name} | {f.passesUsed.toNat}/{f.passesExecuted.toNat} | " ++
  s!"{convergenceLabel f.convergence} |\n"

def markdownFiles (r : Report) : String :=
  let touched := r.files.filter (·.status ≠ .unchanged)
  "## Files\n\n" ++
  if touched.isEmpty then "_No files changed._\n\n"
  else
    "| File | Status | Passes | Convergence |\n|---|---|---|---|\n" ++
    String.join (touched.map markdownFile) ++ "\n"

def markdownFinding (f : Finding) : String :=
  s!"- `{place f}` **{f.kind.name}** `{f.ruleId}` `{f.excerpt}`\n" ++
  ((f.message.map fun m => s!"  - {m}\n").getD "")

def markdownFindings (r : Report) : String :=
  "## Findings\n\n" ++
  if r.findings.isEmpty then "_No findings._\n"
  else String.join (r.findings.map markdownFinding)

def toMarkdown (r : Report) : String :=
  markdownHead r ++ markdownCategories r ++ markdownFiles r ++ markdownFindings r ++
  (if r.nonConverged.isEmpty then ""
    else "\n## Non-converged\n\n" ++ String.join (r.nonConverged.map fun p => s!"- `{p}`\n")) ++
  if r.skipped.isEmpty then ""
  else
    "\n## Skipped\n\n" ++ String.join (r.skipped.map fun k => s!"- `{k.path}`: {k.reason}\n")

end SourceMend.Report
