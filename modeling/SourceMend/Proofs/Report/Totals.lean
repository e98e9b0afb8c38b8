import Mathlib.Data.List.Count
import SourceMend.Proofs.Tally.Totals
import SourceMend.Report.Totals

/-!
The totals of a report agree with its files and findings, and with each other. They depend on
nothing that a report held before, nor on the order of its files and findings.
-/
namespace SourceMend.Report

variable {r s : Report}

/-- All fires of all files. -/
def fired (r : Report) : Nat := (r.files.map (·.fires.total)).sum

/-- A word holds each of the counts. -/
structure Fits (r : Report) : Prop where
  files : r.files.length < UInt64.size
  findings : r.findings.length < UInt64.size
  fired : r.fired < UInt64.size

/-- The totals tell of the files and findings of the report. -/
structure Balanced (r : Report) : Prop where
  scanned : r.summary.filesScanned.toNat = r.files.length
  statuses : r.summary.filesScanned.toNat =
    r.summary.filesModified.toNat + r.summary.filesUnchanged.toNat + r.summary.filesHeld.toNat +
      r.summary.filesFailed.toNat + r.summary.filesCancelled.toNat
  stalled : r.summary.filesNonConverged.toNat = r.nonConverged.length
  findings : r.summary.findingsFixFailed.toNat + r.summary.findingsResidual.toNat =
    r.findings.length
  listed : ∀ rule, r.firesByRule.Has rule ↔ ∃ file ∈ r.files, file.fires.Has rule
  fires : ∀ rule, (r.firesByRule.count rule).toNat =
    (r.files.map fun file => (file.fires.count rule).toNat).sum
  total : r.firesByRule.total = r.fired

/-! Counts -/

theorem toNat_countP_toUInt64 {α : Type} {xs : List α} (h : xs.length < UInt64.size)
    (p : α → Bool) : (xs.countP p).toUInt64.toNat = xs.countP p :=
  Nat.mod_eq_of_lt (Nat.lt_of_le_of_lt List.countP_le_length h)

/-- Each file has one of the five statuses. -/
theorem length_eq_countP_status (files : List FileOutcome) : files.length =
    files.countP (·.status = .modified) + files.countP (·.status = .unchanged) +
      files.countP (·.status = .held) + files.countP (·.status = .failed) +
      files.countP (·.status = .cancelled) := by
  induction files with
  | nil => rfl
  | cons file files ih =>
    simp only [List.length_cons, List.countP_cons, ih]
    cases file.status <;> simp <;> omega

/-! Fires -/

theorem has_foldl_merge (files : List FileOutcome) (t : Tally) (rule : String) :
    (files.foldl (fun t file => t.merge file.fires) t).Has rule ↔
      t.Has rule ∨ ∃ file ∈ files, file.fires.Has rule := by
  induction files generalizing t with
  | nil => simp
  | cons file files ih =>
    rw [List.foldl_cons, ih, Tally.has_merge, or_assoc]
    simp

theorem count_foldl_merge (files : List FileOutcome) (t : Tally) (rule : String) :
    (files.foldl (fun t file => t.merge file.fires) t).count rule =
      t.count rule + (files.map (·.fires.count rule)).sum := by
  induction files generalizing t with
  | nil => simp
  | cons file files ih =>
    rw [List.foldl_cons, ih, Tally.count_merge, List.map_cons, List.sum_cons, UInt64.add_assoc]

theorem total_foldl_merge {files : List FileOutcome} {t : Tally}
    (h : t.total + (files.map (·.fires.total)).sum < UInt64.size) :
    (files.foldl (fun t file => t.merge file.fires) t).total =
      t.total + (files.map (·.fires.total)).sum := by
  induction files generalizing t with
  | nil => rfl
  | cons file files ih =>
    rw [List.map_cons, List.sum_cons, ← Nat.add_assoc] at h ⊢
    have hmerge : (t.merge file.fires).total = t.total + file.fires.total :=
      Tally.total_merge (by omega)
    rw [List.foldl_cons, ih (hmerge ▸ h), hmerge]

theorem has_totalFires (r : Report) (rule : String) :
    r.totalFires.Has rule ↔ ∃ file ∈ r.files, file.fires.Has rule :=
  (has_foldl_merge r.files Tally.empty rule).trans (or_iff_right (Tally.not_has_empty rule))

theorem count_totalFires (h : r.fired < UInt64.size) (rule : String) :
    (r.totalFires.count rule).toNat =
      (r.files.map fun file => (file.fires.count rule).toNat).sum := by
  have hcount : r.totalFires.count rule = (r.files.map (·.fires.count rule)).sum :=
    (count_foldl_merge r.files Tally.empty rule).trans (UInt64.zero_add _)
  have hle : (r.files.map fun file => (file.fires.count rule).toNat).sum ≤ r.fired :=
    List.sum_le_sum fun file _ => file.fires.count_le_total rule
  rw [hcount, Tally.toNat_sum, List.map_map]
  · rfl
  · rw [List.map_map]
    exact Nat.lt_of_le_of_lt hle h

theorem total_totalFires (h : r.fired < UInt64.size) : r.totalFires.total = r.fired := by
  have hempty : Tally.empty.total = 0 := rfl
  rw [totalFires, total_foldl_merge (by rw [hempty, Nat.zero_add]; exact h), hempty, Nat.zero_add]
  rfl

/-! Totals that are made anew -/

theorem balanced_finalize (h : r.Fits) : r.finalize.Balanced where
  scanned := Nat.mod_eq_of_lt h.files
  statuses := by
    have hscanned : r.files.length.toUInt64.toNat = r.files.length := Nat.mod_eq_of_lt h.files
    simp only [finalize, totals, countFiles, toNat_countP_toUInt64 h.files, hscanned]
    exact length_eq_countP_status r.files
  stalled := by
    simp only [finalize, totals, countFiles, toNat_countP_toUInt64 h.files, List.length_map]
    exact List.countP_eq_length_filter
  findings := by
    simp only [finalize, totals, countFindings, toNat_countP_toUInt64 h.findings]
    simpa using (List.length_eq_countP_add_countP Finding.isFixFailed).symm
  listed := r.has_totalFires
  fires := count_totalFires h.fired
  total := total_totalFires h.fired

theorem verdictStatus_eq_fail (sum : Summary) (warned : Bool) : verdictStatus sum warned = .fail ↔
    0 < sum.filesFailed ∨ 0 < sum.filesNonConverged ∨ 0 < sum.findingsFixFailed := by
  unfold verdictStatus
  split
  · next hfail => exact iff_of_true rfl hfail
  · next hfail => split <;> exact iff_of_false nofun hfail

theorem isClean_eq_true (r : Report) : r.isClean = true ↔ r.summary.filesFailed = 0 ∧
    r.summary.filesNonConverged = 0 ∧ r.summary.findingsFixFailed = 0 := by
  simp [isClean, and_assoc]

/-- A report fails exactly when it is not clean. -/
theorem isClean_finalize (r : Report) :
    r.finalize.isClean = true ↔ r.finalize.verdict.status ≠ .fail := by
  have hstatus : r.finalize.verdict.status = .fail ↔ _ :=
    verdictStatus_eq_fail r.totals (r.findings.any isWarning)
  rw [isClean_eq_true, ne_eq, hstatus]
  simp only [finalize, UInt64.pos_iff_ne_zero]
  tauto

theorem finalize_finalize (r : Report) : r.finalize.finalize = r.finalize := rfl

/-- The order of files and findings does not matter. -/
theorem finalize_perm (hfiles : r.files.Perm s.files) (hfindings : r.findings.Perm s.findings)
    (hskipped : r.skipped.Perm s.skipped) :
    r.finalize.summary = s.finalize.summary ∧ r.finalize.verdict = s.finalize.verdict ∧
      r.finalize.firesByRule = s.finalize.firesByRule ∧
      r.finalize.nonConverged.Perm s.finalize.nonConverged := by
  have htotals : r.totals = s.totals := by
    simp only [totals, countFiles, countFindings, hfiles.length_eq, hskipped.length_eq,
      hfiles.countP_eq, hfindings.countP_eq]
  refine ⟨htotals, ?verdict, ?fires, (hfiles.filter _).map _⟩
  case verdict =>
    simp only [finalize, htotals, hfindings.any_eq]
  case fires =>
    exact hfiles.foldl_eq' (fun _ _ _ _ t => t.merge_right_comm _ _) _

end SourceMend.Report
