import SourceMend.Proofs.Run.Truth
import SourceMend.Proofs.Walk.Visits

/-!
Where the files of a run come from. A walk over a tree gives paths that lead to files there, apart
from those that no operation takes at all, such as paths that are too long.
-/
namespace SourceMend

/-- The path of a source leads to a file, or is refused by every disk. -/
inductive SourceFile.Sourced (d : Disk) (src : SourceFile) : Prop
  | file {key : Key} {bytes : ByteArray} (target : d.locate src.path = .ok key)
    (file : d.get? key = some (.file bytes))
  | refused {cause : OsError} (check : Disk.checkPath src.path.toList = .error cause)

theorem SourceFile.Sourced.file_of_locate {d : Disk} {src : SourceFile} {key : Key}
    (h : src.Sourced d) (hkey : d.locate src.path = .ok key) :
    ∃ bytes, d.get? key = some (.file bytes) := by
  cases h with
  | @file found bytes target file =>
    obtain rfl := Except.ok.inj (target.symm.trans hkey)
    exact ⟨bytes, file⟩
  | refused check =>
    rw [(Disk.locate_eq_ok.1 hkey).1] at check
    contradiction

namespace Walker

variable {d : Disk} {w : Walker}

theorem Reach.sourced (hd : d.WellFormed) {root path : String} {key : Key}
    (h : Reach d root path key) {src : SourceFile} (hpath : src.path = path) : src.Sourced d := by
  subst hpath
  obtain ⟨bytes, hfile⟩ := h.exists_file
  cases hcheck : Disk.checkPath src.path.toList with
  | error cause => exact .refused hcheck
  | ok => exact .file (Disk.locate_eq_ok.2 ⟨hcheck, h.follow hd⟩) hfile

theorem sourced_of_mem_walk {found : List WalkEntry} (hd : d.WellFormed)
    (h : w.walk d = .ok found) {src : SourceFile} (hsrc : .source src ∈ found) :
    src.Sourced d := by
  obtain ⟨root, -, path, key, hreach, hmade⟩ := exists_reach_of_mem_walk hd.toProper h hsrc rfl
  exact hreach.sourced hd (hmade.source src rfl).1

end Walker

/-- Every source of a run comes from the disk. -/
theorem Run.sourced_of_mem_sources {settings : Settings} {d : Disk} (hd : d.WellFormed)
    {src : SourceFile} (h : src ∈ sources settings d) : src.Sourced d := by
  unfold sources at h
  split at h
  next found hfound =>
    unfold entries at hfound
    obtain ⟨exclusion, -, hwalk⟩ := eq_ok_of_bind hfound
    obtain ⟨e, he, hsource⟩ := List.mem_filterMap.1 h
    cases e with
    | skipped | blocked => contradiction
    | source file =>
      obtain rfl := Option.some.inj hsource
      exact Walker.sourced_of_mem_walk hd hwalk he
  next => contradiction

end SourceMend
