import SourceMend.Report.Basic

/-! The totals of a report: everything that follows from its files, findings and skipped paths. -/
namespace SourceMend.Report

def countFiles (r : Report) (p : FileOutcome → Bool) : UInt64 := (r.files.countP p).toUInt64

def countFindings (r : Report) (p : Finding → Bool) : UInt64 := (r.findings.countP p).toUInt64

def totals (r : Report) : Summary where
  filesScanned := r.files.length.toUInt64
  filesModified := r.countFiles (·.status = .modified)
  filesUnchanged := r.countFiles (·.status = .unchanged)
  filesFailed := r.countFiles (·.status = .failed)
  filesHeld := r.countFiles (·.status = .held)
  filesNonConverged := r.countFiles (·.convergence.isStalled)
  filesSkipped := r.skipped.length.toUInt64
  filesCancelled := r.countFiles (·.status = .cancelled)
  findingsFixFailed := r.countFindings (·.isFixFailed)
  findingsResidual := r.countFindings (!·.isFixFailed)

/-- Whether a finding is worth a warning though no fix failed. -/
def isWarning (f : Finding) : Bool := !f.isFixFailed && f.severity ≠ .info

/-- What speaks against a run, in a fixed order. -/
def verdictReasons (s : Summary) : List String :=
  (if 0 < s.filesFailed then ["file_errors"] else []) ++
  (if 0 < s.filesNonConverged then ["non_converged"] else []) ++
  (if 0 < s.findingsFixFailed then ["fix_failed"] else []) ++
  (if 0 < s.filesCancelled then ["deadline"] else [])

def verdictStatus (s : Summary) (warned : Bool) : VerdictStatus :=
  if 0 < s.filesFailed ∨ 0 < s.filesNonConverged ∨ 0 < s.findingsFixFailed then .fail
  else if warned ∨ 0 < s.filesCancelled then .warn
  else .pass

/-- The fires of all files together. -/
def totalFires (r : Report) : Tally := r.files.foldl (fun t f => t.merge f.fires) Tally.empty

/-- Makes the summary, the verdict, the fires by rule and the list of paths without a fixed point
anew. -/
def finalize (r : Report) : Report :=
  let summary := r.totals
  { r with
    summary
    verdict := {
      status := verdictStatus summary (r.findings.any isWarning)
      reasons := verdictReasons summary }
    firesByRule := r.totalFires
    nonConverged := (r.files.filter (·.convergence.isStalled)).map (·.path) }

end SourceMend.Report
