import SourceMend.Disk.Basic
import SourceMend.Report.Encode
import SourceMend.Report.Print

/-! Files that a run leaves beside the sources: its report as JSON and as markdown. -/
namespace SourceMend

/-- A file or directory that could not be made. -/
inductive WriteError where
  | noParent (path : String)
  | noFile (path : String)
  | noFolder (path : String)
  deriving DecidableEq, Repr, Inhabited

def WriteError.message : WriteError → String
  | .noParent path => s!"create parent dir for {path}"
  | .noFile path => s!"write {path}"
  | .noFolder path => s!"create_dir_all {path}"

namespace Disk

/-- Writes a file, with the directories above it where they are missing. -/
def deliver (d : Disk) (path : String) (bytes : ByteArray) : Except WriteError Unit × Disk :=
  let made := match Path.folder? path.toList with
    | some folder => d.makeFolders (String.ofList folder)
    | none => (.ok (), d)
  match made with
  | (.error _, d') => (.error (.noParent path), d')
  | (.ok (), d') =>
    match d'.writeFile path bytes with
    | .error _ => (.error (.noFile path), d')
    | .ok d'' => (.ok (), d'')

def deliverFolder (d : Disk) (path : String) : Except WriteError Unit × Disk :=
  let (made, d') := d.makeFolders path
  (made.mapError fun _ => .noFolder path, d')

end Disk

namespace Report

def deliver? (d : Disk) (path : Option String) (text : String) : Except WriteError Unit × Disk :=
  match path with
  | some p => d.deliver p text.toUTF8
  | none => (.ok (), d)

/-- Writes the JSON report and then the markdown report, as far as they are asked for. -/
def writeArtifacts (r : Report) (json markdown : Option String) (d : Disk) :
    Except WriteError Unit × Disk :=
  match deliver? d json r.toJsonString with
  | (.error e, d') => (.error e, d')
  | (.ok (), d') => deliver? d' markdown r.toMarkdown

end Report
end SourceMend
