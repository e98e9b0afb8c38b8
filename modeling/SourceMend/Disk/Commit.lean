import SourceMend.Digest
import SourceMend.Disk.Basic

/-!
Commits. New content is first staged in a temporary file beside its target. Publishing it checks
that the target still has the digest it had when it was read, and then puts the temporary file in
its place. The device may refuse each step. A staged write that is not published is discarded,
whatever has come in between, so that it leaves nothing behind.
-/
namespace SourceMend

/-- What a device has against the steps of a commit that the disk would allow. -/
abbrev Device := Action → Option OsError

/-- A device that refuses nothing. -/
def Device.sound : Device := fun _ => none

def Device.permit (device : Device) (a : Action) (path : String) : Except Fault Unit :=
  match device a with
  | none => .ok ()
  | some cause => .error ⟨a, path, cause⟩

/-- The bytes of a text. -/
abbrev Text.bytes (t : Text) : ByteArray := (String.ofList t).toUTF8

/-- A file as it was when it was read. -/
structure FileRecord where
  path : String
  content : Text
  digest : Digest
  deriving DecidableEq, Inhabited

def FileRecord.of (path : String) (content : Text) : FileRecord :=
  ⟨path, content, Digest.ofText content⟩

structure Receipt where
  path : String
  before : Digest
  after : Digest
  bytesWritten : UInt64
  deriving DecidableEq, Inhabited

/-- Why new content did not reach its file. -/
inductive CommitError where
  /-- The file changed after it was read. -/
  | changed (path : String) (expected actual : Digest)
  /-- The file is gone. -/
  | missing (path : String)
  | refused (path : String) (fault : Fault)
  deriving DecidableEq, Inhabited

namespace CommitError

def path : CommitError → String
  | .changed p _ _ | .missing p | .refused p _ => p

/-- Whether the file was changed or removed by someone else. -/
def isPrecondition : CommitError → Bool
  | .changed _ _ _ | .missing _ => true
  | .refused _ _ => false

def message : CommitError → String
  | .changed p expected actual =>
    s!"{p} changed since it was read (expected sha256 {expected.hex}, found {actual.hex})"
  | .missing p => s!"{p} no longer exists"
  | .refused p fault => s!"commit {p}: {fault.message}"

end CommitError

/-- New content in a temporary file. -/
structure StagedWrite where
  target : String
  temp : String
  /-- The digest that the target must have. -/
  expected : Digest
  /-- The digest of the new content. -/
  written : Digest
  size : UInt64
  deriving DecidableEq, Inhabited

/-- A hidden name beside the target; `id` makes it new. -/
def tempPath (target id : String) : String :=
  let name := String.ofList ((Path.fileName? target.toList).getD "file".toList)
  let temp := s!".{name}.syntaxfix.{id}.tmp".toList
  String.ofList <|
    match Path.folder? target.toList with
    | some folder => Path.join folder temp
    | none => temp

/-- The staged write that brings a text to the file of a record. -/
def FileRecord.staged (r : FileRecord) (id : String) (content : Text) : StagedWrite where
  target := r.path
  temp := tempPath r.path id
  expected := r.digest
  written := Digest.ofText content
  size := content.bytes.size.toUInt64

def StagedWrite.receipt (w : StagedWrite) : Receipt := ⟨w.target, w.expected, w.written, w.size⟩

namespace Disk

def readRecord (d : Disk) (path : String) : Except Fault FileRecord :=
  (d.readText path).map (FileRecord.of path)

/-- Takes the temporary file away. A refusal is ignored. -/
def discard (d : Disk) (w : StagedWrite) : Disk :=
  match d.removeFile w.temp with
  | .ok d' => d'
  | .error _ => d

/-- Makes an empty file that was not there. -/
def createFile (d : Disk) (device : Device) (path : String) : Except Fault (Key × Disk) :=
  match d.locate path with
  | .error cause => .error ⟨.openFile, path, cause⟩
  | .ok key =>
    if (d.get? key).isSome then .error ⟨.openFile, path, .alreadyExists⟩
    else (device.permit .openFile path).map fun () => (key, d.put key (.file .empty))

/-- Writes to an empty file, and waits until all of it is on the device. -/
def fill (d : Disk) (device : Device) (path : String) (key : Key) (bytes : ByteArray) :
    Except Fault Unit × Disk :=
  match device.permit .writeFile path with
  | .error fault => (.error fault, d)
  | .ok () => (device.permit .syncFile path, d.put key (.file bytes))

/-- Writes `content` to a temporary file beside the file of the record. -/
def stage (d : Disk) (device : Device) (id : String) (r : FileRecord) (content : Text) :
    Except CommitError StagedWrite × Disk :=
  let w := r.staged id content
  match d.createFile device w.temp with
  | .error fault => (.error (.refused r.path fault), d)
  | .ok (key, d') =>
    match d'.fill device w.temp key content.bytes with
    | (.error fault, d'') => (.error (.refused r.path fault), d''.discard w)
    | (.ok (), d'') => (.ok w, d'')

/-- Reads a file from a device. -/
def readFrom (d : Disk) (device : Device) (path : String) : Except Fault ByteArray :=
  match d.readBytes path with
  | .error fault => .error fault
  | .ok bytes => (device.permit .readFile path).map fun () => bytes

/-- The first step of a publish: refuses if the target is not what it was. -/
def inspect (d : Disk) (device : Device) (w : StagedWrite) : Except CommitError Unit :=
  match d.readFrom device w.target with
  | .error fault =>
    .error (if fault.cause = .notFound then .missing w.target else .refused w.target fault)
  | .ok bytes =>
    let actual := Digest.ofBytes bytes
    if actual ≠ w.expected then .error (.changed w.target w.expected actual) else .ok ()

/-- What there is at a path, for an action that the device may refuse. -/
def reach (d : Disk) (device : Device) (a : Action) (path : String) : Except Fault (Key × Entry) :=
  match d.entryAt path with
  | .error cause => .error ⟨a, path, cause⟩
  | .ok found => (device.permit a path).map fun () => found

/-- The second step of a publish: gives the temporary file the permissions of the target, and moves
it there. -/
def install (d : Disk) (device : Device) (w : StagedWrite) : Except Fault Disk := do
  let (key, old) ← d.reach device .queryMetadata w.target
  let (tempKey, new) ← d.reach device .setPermissions w.temp
  device.permit (.moveFile w.target) w.temp
  match new, old with
  | .directory, _ => throw ⟨.moveFile w.target, w.temp, .notADirectory⟩
  | .file _, .directory => throw ⟨.moveFile w.target, w.temp, .isADirectory⟩
  | .file content, .file _ => return (d.erase tempKey).put key (.file content)

/-- Puts the staged content in the place of the target, if that is still what it was. -/
def publish (d : Disk) (device : Device) (w : StagedWrite) : Except CommitError Receipt × Disk :=
  match d.inspect device w with
  | .error error => (.error error, d.discard w)
  | .ok () =>
    match d.install device w with
    | .error fault => (.error (.refused w.target fault), d.discard w)
    | .ok d' => (.ok w.receipt, d')

/-- Stages and publishes. -/
def commit (d : Disk) (device : Device) (id : String) (r : FileRecord) (content : Text) :
    Except CommitError Receipt × Disk :=
  match d.stage device id r content with
  | (.error error, d') => (.error error, d')
  | (.ok w, d') => d'.publish device w

end Disk
end SourceMend
