import SourceMend.CommandLine.Mend
import SourceMend.Run.Clock

/-!
The repair command as a program. It takes the tree below the working directory as its disk, and
afterwards brings to that tree what the command has changed. A file that someone else has changed
in the meantime is not overwritten.
-/
namespace SourceMend.Program

def pathOf (key : Key) : String := "/" ++ String.intercalate "/" key

/-- The names in an absolute path without dots. -/
def keyOf (path : String) : Key := ((Path.pieces path.toList).filter (· ≠ [])).map String.ofList

def causeOf : IO.Error → OsError
  | .permissionDenied _ _ _ => .denied
  | .noFileOrDirectory _ _ _ => .notFound
  | _ => .deviceFailed

/-- Adds what `list` finds in the directory at a key, and everything below it. Links are not
followed. -/
partial def readFolder (d : Disk) (key : Key) (list : IO (Array IO.FS.DirEntry)) : IO Disk := do
  match ← list.toBaseIO with
  | .error e => return { d with closed := (key, causeOf e) :: d.closed }
  | .ok found => found.toList.foldlM (readEntry key) d
where
  readEntry (above : Key) (d : Disk) (e : IO.FS.DirEntry) : IO Disk := do
    let key := above ++ [e.fileName]
    match (← e.path.symlinkMetadata).type with
    | .file => return { d with entries := (key, .file (← IO.FS.readBinFile e.path)) :: d.entries }
    | .dir => readFolder { d with entries := (key, .directory) :: d.entries } key e.path.readDir
    | _ => return d

/-- The tree below the working directory, and the directories above it. -/
def readDisk : IO Disk := do
  let here ← IO.currentDir
  let cwd := keyOf here.toString
  let above := (List.range cwd.length).map fun n => (cwd.take (n + 1), Entry.directory)
  readFolder { cwd, entries := above } cwd here.readDir

def randomHex (digits : Nat) : IO String := do
  let cs ← (List.range digits).mapM fun _ => return Json.hexDigit (← IO.rand 0 15)
  return String.ofList cs

/-- Whether the tree still has what the disk had at a key. -/
def isUntouched (before : Disk) (key : Key) : IO Bool := do
  match before.get? key with
  | some (.file bytes) =>
    try return Entry.file (← IO.FS.readBinFile (pathOf key)) = .file bytes
    catch _ => return false
  | _ => return true

/-- Brings one entry to the tree, through a temporary file; the answer is whether it was left
alone because someone else has changed it. -/
def writeEntry (before : Disk) (key : Key) : Entry → IO Bool
  | .directory => do
    IO.FS.createDirAll (pathOf key)
    return false
  | .file bytes => do
    let temp := tempPath (pathOf key) (← randomHex 32)
    IO.FS.writeBinFile temp bytes
    if ← isUntouched before key then
      IO.FS.rename temp (pathOf key)
      return false
    else
      IO.FS.removeFile temp
      return true

/-- Brings the changes of a disk to the tree, directories first from the top down. The answer is
the list of paths that were left alone. -/
def writeBack (before after : Disk) : IO (List String) := do
  let news := after.entries.filter fun (key, e) => before.get? key ≠ some e
  let news := news.mergeSort fun a b => decide (a.1.length ≤ b.1.length)
  let left ← news.filterM fun (key, e) => writeEntry before key e
  return left.map fun (key, _) => pathOf key

/-- The seconds since the start of 1970, by the clock of the file system. -/
def now : IO Nat := do
  let (_, path) ← IO.FS.createTempFile
  let time := (← path.metadata).modified
  IO.FS.removeFile path
  return time.sec.toNat

/-- Goes on with a run, file by file, until it is done or its time is over. -/
partial def work (startMs : Nat) (run : Run) : IO Run := do
  if run.todo.isEmpty then return run
  let elapsed := ((← IO.monoMsNow) - startMs) / 1000
  let id ← randomHex 32
  work startMs (run.step .sound id (fun _ d => d) (Run.isOver run.settings elapsed))

def finish (before : Disk) (o : CommandLine.Outcome) : IO UInt32 := do
  let left ← writeBack before o.disk
  IO.print o.stdout
  for text in o.problem.toList ++ left.map (fun p => s!"{p} changed since it was read") do
    IO.eprintln text
  return if left.isEmpty then o.exitCode.toUInt32 else max 1 o.exitCode.toUInt32

def run (args : List String) : IO UInt32 := do
  let disk ← readDisk
  match CommandLine.Mend.start args disk with
  | .finished o => finish disk o
  | .running options run =>
    let startMs ← IO.monoMsNow
    let startedAt := Clock.stamp (← now)
    let run ← work startMs run
    let around : Surroundings := {
      runId := ← randomHex 32
      startedAt
      endedAt := some (Clock.stamp (← now))
      durationMs := some ((← IO.monoMsNow) - startMs).toUInt64 }
    finish disk (CommandLine.Mend.conclude options run around)

end SourceMend.Program

def main (args : List String) : IO UInt32 := SourceMend.Program.run args
