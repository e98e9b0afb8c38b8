import SourceMend.Disk.Commit
import SourceMend.Patch
import SourceMend.Settings.Basic
import SourceMend.Validate
import SourceMend.Walk

/-!
The work on one file: read it, repair it, commit the new text, and look for what is left. What is
to be done follows from the file as it was read; the disk is needed only to read and to commit.
-/
namespace SourceMend

/-- What went wrong with one file. -/
inductive FileError where
  | unreadable (path : String) (fault : Fault)
  | uncommitted (cause : CommitError)
  /-- No fixed point within the passes. -/
  | stalled (path : String) (state : Convergence) (passes : UInt32)
  deriving DecidableEq, Inhabited

def FileError.message : FileError → String
  | .unreadable path fault => s!"read {path}: {fault.message}"
  | .uncommitted cause => cause.message
  | .stalled path state passes => s!"{path}: {state.describe} after {passes.toNat} passes"

/-- What becomes of a file. -/
structure FileResult where
  outcome : FileOutcome
  findings : List Finding := []
  deriving DecidableEq, Inhabited

/-- What is to be done with a file that was read. -/
structure FilePlan where
  record : FileRecord
  /-- The outcome as far as it is known before the commit, if there is one. -/
  outcome : FileOutcome
  /-- The text that the file is to have. -/
  final : Text
  commits : Bool
  deriving DecidableEq, Inhabited

namespace FilePlan

def status (settings : Settings) (repair : Repair) (before : Text) : FileStatus :=
  if repair.convergence.isStalled ∧ settings.stalled = .discard then .held
  else if repair.content ≠ before then .modified
  else .unchanged

def make (settings : Settings) (rules : RuleSet) (src : SourceFile) (record : FileRecord) :
    FilePlan :=
  let repair := rules.repair settings.maxPasses record.content (Context.ofPath src.display)
  let status := status settings repair record.content
  let final := if status = .modified then repair.content else record.content
  let withPatch := settings.dryRun || settings.includePatches
  { record
    final
    commits := status = .modified && !settings.dryRun
    outcome := {
      path := src.display
      status
      convergence := repair.convergence
      passesUsed := repair.passesUsed
      passesExecuted := repair.passesExecuted
      fires := repair.fires
      sha256Before := some record.digest.hex
      sha256After :=
        if status = .modified then
          if settings.dryRun then some (Digest.ofText final).hex else none
        else some record.digest.hex
      error :=
        if repair.convergence.isStalled then
          some (FileError.stalled src.path repair.convergence repair.passesExecuted).message
        else none
      patch :=
        if status = .modified && withPatch then
          some (String.ofList (Patch.render src.display record.content final))
        else none } }

/-- The plan with what the receipt of its commit says. -/
def committed (p : FilePlan) (receipt : Receipt) : FilePlan :=
  { p with outcome := { p.outcome with
    written := true
    sha256After := some receipt.after.hex } }

/-- The result once the file has its final text. -/
def done (p : FilePlan) (rules : RuleSet) : FileResult where
  outcome := p.outcome
  findings := rules.validate p.outcome.path p.final (Dialect.ofPath p.outcome.path)

/-- The result of a commit that failed. -/
def failed (p : FilePlan) (cause : CommitError) : FileResult where
  outcome := { p.outcome with
    status := .failed
    error := some (FileError.uncommitted cause).message }

def afterCommit (p : FilePlan) (rules : RuleSet) : Except CommitError Receipt → FileResult
  | .ok receipt => (p.committed receipt).done rules
  | .error cause => p.failed cause

end FilePlan

namespace FileResult

def cancelled (src : SourceFile) : FileResult where
  outcome := { path := src.display, status := .cancelled }

def unreadable (src : SourceFile) (fault : Fault) : FileResult where
  outcome := {
    path := src.display
    status := .failed
    error := some (FileError.unreadable src.path fault).message }

end FileResult

/-- Works on one file. `id` names its temporary file, and `interfere` is what others do to the
disk between the reading and the commit. -/
def Disk.mend (d : Disk) (settings : Settings) (rules : RuleSet) (device : Device) (id : String)
    (interfere : String → Disk → Disk) (src : SourceFile) : FileResult × Disk :=
  match d.readRecord src.path with
  | .error fault => (FileResult.unreadable src fault, d)
  | .ok record =>
    let plan := FilePlan.make settings rules src record
    if plan.commits then
      let (result, d') := (interfere src.path d).commit device id record plan.final
      (plan.afterCommit rules result, d')
    else (plan.done rules, d)

end SourceMend
