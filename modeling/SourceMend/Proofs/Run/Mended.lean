import SourceMend.Proofs.Disk.Commit
import SourceMend.Run.Job

/-!
The work on one file when nobody else is at work. It ends in one of four ways: the file cannot be
read, nothing is to be committed, the commit is refused, or the file is replaced. In each of them
the result follows from the plan for the content that was read.
-/
namespace SourceMend

/-- The plan for a file with this content. -/
abbrev SourceFile.plan (src : SourceFile) (settings : Settings) (rules : RuleSet) (content : Text) :
    FilePlan :=
  .make settings rules src (.of src.path content)

@[simp] theorem SourceFile.record_plan (src : SourceFile) (settings : Settings) (rules : RuleSet)
    (content : Text) : (src.plan settings rules content).record = .of src.path content := rfl

/-- The work on one file when nobody else is at work. -/
def Disk.mendAlone (d : Disk) (settings : Settings) (rules : RuleSet) (device : Device)
    (id : String) (src : SourceFile) : FileResult × Disk :=
  d.mend settings rules device id (fun _ d => d) src

namespace Disk

section
variable {d : Disk} {settings : Settings} {rules : RuleSet} {device : Device} {src : SourceFile}
  {content : Text} {id : String}

theorem mendAlone_of_error {fault : Fault} (h : d.readText src.path = .error fault) :
    d.mendAlone settings rules device id src = (.unreadable src fault, d) := by
  unfold mendAlone mend readRecord
  rw [h]
  rfl

theorem mend_of_still (h : d.readText src.path = .ok content)
    (hstill : (src.plan settings rules content).commits = false)
    (interfere : String → Disk → Disk) :
    d.mend settings rules device id interfere src =
      ((src.plan settings rules content).done rules, d) := by
  unfold mend readRecord
  rw [h]
  exact if_neg (by simpa using hstill)

theorem mendAlone_of_commits (h : d.readText src.path = .ok content)
    (hcommits : (src.plan settings rules content).commits = true) :
    d.mendAlone settings rules device id src =
      let out := d.commit device id (.of src.path content) (src.plan settings rules content).final
      ((src.plan settings rules content).afterCommit rules out.1, out.2) := by
  unfold mendAlone mend readRecord
  rw [h]
  dsimp only [Except.map]
  rw [if_pos hcommits]

end

/-- How the work on one file goes when nobody else is at work. -/
inductive Mended (d : Disk) (settings : Settings) (rules : RuleSet) (device : Device) (id : String)
    (src : SourceFile) : FileResult × Disk → Prop
  | unreadable {fault : Fault} (read : d.readText src.path = .error fault) :
    Mended d settings rules device id src (.unreadable src fault, d)
  | still {content : Text} (read : d.readText src.path = .ok content)
    (still : (src.plan settings rules content).commits = false) :
    Mended d settings rules device id src ((src.plan settings rules content).done rules, d)
  | refused {content : Text} {cause : CommitError} (read : d.readText src.path = .ok content)
    (commits : (src.plan settings rules content).commits = true)
    (commit : d.commit device id (.of src.path content) (src.plan settings rules content).final =
      (.error cause, d)) :
    Mended d settings rules device id src ((src.plan settings rules content).failed cause, d)
  | replaced {content : Text} {receipt : Receipt} {key : Key}
    (read : d.readText src.path = .ok content)
    (commits : (src.plan settings rules content).commits = true)
    (after : receipt.after = Digest.ofText (src.plan settings rules content).final)
    (target : d.locate src.path = .ok key) (file : d.get? key = some (.file content.bytes)) :
    Mended d settings rules device id src
      (((src.plan settings rules content).committed receipt).done rules,
        d.put key (.file (src.plan settings rules content).final.bytes))

theorem mended (d : Disk) (settings : Settings) (rules : RuleSet) (device : Device) (id : String)
    (src : SourceFile) :
    d.Mended settings rules device id src (d.mendAlone settings rules device id src) := by
  cases hread : d.readText src.path with
  | error fault =>
    rw [mendAlone_of_error hread]
    exact .unreadable hread
  | ok content =>
    cases hcommits : (src.plan settings rules content).commits with
    | false =>
      rw [mendAlone, mend_of_still hread hcommits]
      exact .still hread hcommits
    | true =>
      rw [mendAlone_of_commits hread hcommits]
      rcases commit_cases device id _ hread with
        ⟨cause, hcommit⟩ | ⟨receipt, key, hcommit, -, hafter, hkey, hfile⟩
      · rw [hcommit]
        exact .refused hread hcommits hcommit
      · rw [hcommit]
        exact .replaced hread hcommits hafter hkey hfile

section
variable {d e : Disk} {settings : Settings} {rules : RuleSet} {device : Device} {src : SourceFile}
  {id : String} {out : FileResult × Disk}

theorem Mended.path (h : d.Mended settings rules device id src out) :
    out.1.outcome.path = src.display := by
  cases h <;> rfl

/-- The work on a file touches nothing else. -/
theorem Mended.frame (h : d.Mended settings rules device id src out) :
    d.SameTree out.2 ∧ ∀ k, d.locate src.path ≠ .ok k → out.2.get? k = d.get? k := by
  cases h with
  | unreadable | still | refused => exact ⟨SameTree.refl d, fun _ _ => rfl⟩
  | replaced _ _ _ target file =>
    refine ⟨sameTree_put file _, fun k hk => get?_put_of_ne d _ ?_⟩
    rintro rfl
    exact hk target

/-- The work on a file depends only on its own entry and on what there is on the disk. -/
theorem SameTree.mendAlone (settings : Settings) (rules : RuleSet) (device : Device) (id : String)
    (htree : d.SameTree e)
    (hkey : ∀ key, d.locate src.path = .ok key → e.get? key = d.get? key) :
    (e.mendAlone settings rules device id src).1 = (d.mendAlone settings rules device id src).1 ∧
      ∀ key, d.locate src.path = .ok key →
        (e.mendAlone settings rules device id src).2.get? key =
          (d.mendAlone settings rules device id src).2.get? key := by
  have hread : e.readText src.path = d.readText src.path := by
    unfold readText
    rw [readBytes_congr (htree.locate_eq _) hkey]
  cases h : d.readText src.path with
  | error fault =>
    rw [mendAlone_of_error h, mendAlone_of_error (hread.trans h)]
    exact ⟨rfl, hkey⟩
  | ok content =>
    cases hcommits : (src.plan settings rules content).commits with
    | false =>
      rw [Disk.mendAlone, Disk.mendAlone, mend_of_still h hcommits,
        mend_of_still (hread.trans h) hcommits]
      exact ⟨rfl, hkey⟩
    | true =>
      have hsame := commit_congr device id (src.plan settings rules content).final h
        (hread.trans h) (htree.locate_eq (tempPath src.path id)) fun key _ => htree.isSome_get? key
      rw [mendAlone_of_commits h hcommits, mendAlone_of_commits (hread.trans h) hcommits]
      dsimp only
      rw [hsame]
      refine ⟨rfl, fun k hk => ?_⟩
      have hcases := commit_cases device id (src.plan settings rules content).final h
      have hcases' := commit_cases device id (src.plan settings rules content).final
        (hread.trans h)
      rcases hcases with ⟨cause, heq⟩ | ⟨receipt, key, heq, -, -, hlocate, hfile⟩ <;>
        rcases hcases' with ⟨cause', heq'⟩ | ⟨receipt', key', heq', -, -, hlocate', hfile'⟩ <;>
        rw [heq, heq'] at hsame <;> rw [heq, heq']
      · exact hkey k hk
      · exact nomatch hsame
      · exact nomatch hsame
      · obtain rfl := Except.ok.inj (hlocate.symm.trans hk)
        rw [htree.locate_eq] at hlocate'
        obtain rfl := Except.ok.inj (hlocate.symm.trans hlocate')
        rw [get?_put_self _ _ (key_ne_nil_of_file hfile),
          get?_put_self _ _ (key_ne_nil_of_file hfile)]

end
end Disk
end SourceMend
