import SourceMend.Path

/-!
A disk: files and directories below the root. An entry is found by its key, the names on the way
from the root down to it. Operations take paths as people write them, relative ones from the
working directory; `locate` turns a path into a key and refuses to go through anything but
directories.
-/
namespace SourceMend

inductive Entry where
  | file (bytes : ByteArray)
  | directory

/-- Files are compared byte by byte. -/
instance : DecidableEq Entry
  | .file a, .file b => decidable_of_iff (a.data = b.data) (by simp [ByteArray.ext_iff])
  | .directory, .directory => isTrue rfl
  | .file _, .directory => isFalse nofun
  | .directory, .file _ => isFalse nofun

/-- Why the system refuses an operation. -/
inductive OsError where
  | notFound
  /-- The device failed. -/
  | deviceFailed
  | denied
  | alreadyExists
  | notADirectory
  | isADirectory
  | noSpace
  | nameTooLong
  /-- The path holds a character that no name can have. -/
  | badName
  /-- The bytes are no text in UTF-8. -/
  | notText
  deriving DecidableEq, Repr, Inhabited

def OsError.message : OsError → String
  | .notFound => "No such file or directory (os error 2)"
  | .deviceFailed => "Input/output error (os error 5)"
  | .denied => "Permission denied (os error 13)"
  | .alreadyExists => "File exists (os error 17)"
  | .notADirectory => "Not a directory (os error 20)"
  | .isADirectory => "Is a directory (os error 21)"
  | .noSpace => "No space left on device (os error 28)"
  | .nameTooLong => "File name too long (os error 36)"
  | .badName => "file name contained an unexpected NUL byte"
  | .notText => "stream did not contain valid UTF-8"

/-- What was done to a file when the system refused it. -/
inductive Action where
  | openFile
  | readFile
  | createFile
  | writeFile
  | syncFile
  | queryMetadata
  | setPermissions
  | moveFile (target : String)
  | createFolder
  deriving DecidableEq, Repr, Inhabited

/-- The action on a path, in words. -/
def Action.describe (a : Action) (path : String) : String :=
  match a with
  | .openFile => s!"open file `{path}`"
  | .readFile => s!"read from file `{path}`"
  | .createFile => s!"create file `{path}`"
  | .writeFile => s!"write to file `{path}`"
  | .syncFile => s!"sync file `{path}`"
  | .queryMetadata => s!"query metadata of file `{path}`"
  | .setPermissions => s!"set permissions for file `{path}`"
  | .moveFile target => s!"rename file from {path} to {target}"
  | .createFolder => s!"create directory `{path}`"

/-- A refused operation. -/
structure Fault where
  action : Action
  path : String
  cause : OsError
  deriving DecidableEq, Repr, Inhabited

def Fault.message (f : Fault) : String :=
  s!"failed to {f.action.describe f.path}: {f.cause.message}"

/-- The names on the way from the root down. -/
abbrev Key := List String

/-- What a disk is apart from its entries. Nothing that is done to the entries changes it. -/
structure Ground where
  /-- The working directory. -/
  cwd : Key := []
  /-- The directories that cannot be listed, and why. -/
  closed : List (Key × OsError) := []
  /-- The files that have a name on the way to them which is no text, by the bytes of the names. -/
  strays : List (List (List UInt8)) := []
  deriving DecidableEq

structure Disk extends Ground where
  entries : List (Key × Entry) := []
  deriving DecidableEq

namespace Disk

def empty : Disk := {}

instance : Inhabited Disk := ⟨empty⟩

/-- The entry at a key; the root is always there. -/
def get? (d : Disk) (key : Key) : Option Entry :=
  if key = [] then some .directory else d.entries.lookup key

/-- Puts an entry at a key, in place of the one that is there. -/
def put (d : Disk) (key : Key) (e : Entry) : Disk :=
  { d with entries := (key, e) :: d.entries.filter (·.1 ≠ key) }

/-- Takes the entry at a key away. -/
def erase (d : Disk) (key : Key) : Disk := { d with entries := d.entries.filter (·.1 ≠ key) }

@[simp] theorem toGround_put (d : Disk) (key : Key) (e : Entry) :
    (d.put key e).toGround = d.toGround := rfl

@[simp] theorem toGround_erase (d : Disk) (key : Key) : (d.erase key).toGround = d.toGround := rfl

theorem lookup_filter_ne {key key' : Key} (h : key' ≠ key) (es : List (Key × Entry)) :
    (es.filter (·.1 ≠ key)).lookup key' = es.lookup key' := by
  induction es with
  | nil => rfl
  | cons e es ih =>
    obtain ⟨k, v⟩ := e
    by_cases he : k = key
    · subst he
      have hb : (key' == k) = false := by simpa using h
      rw [List.filter_cons_of_neg (by simp), ih, List.lookup_cons, hb]
    · rw [List.filter_cons_of_pos (by simpa using he), List.lookup_cons, List.lookup_cons, ih]

@[simp] theorem get?_put_self (d : Disk) {key : Key} (e : Entry) (h : key ≠ []) :
    (d.put key e).get? key = some e := by
  simp [get?, put, h]

/-- Other keys keep their entry. -/
theorem get?_put_of_ne (d : Disk) {key key' : Key} (e : Entry) (h : key' ≠ key) :
    (d.put key e).get? key' = d.get? key' := by
  have : (key' == key) = false := by simp [h]
  simp only [get?, put, List.lookup_cons, this]
  rw [lookup_filter_ne h]

theorem get?_erase_of_ne (d : Disk) {key key' : Key} (h : key' ≠ key) :
    (d.erase key).get? key' = d.get? key' := by
  simp only [get?, erase]
  rw [lookup_filter_ne h]

def checkFolder (d : Disk) (key : Key) : Except OsError Unit :=
  match d.get? key with
  | some .directory => .ok ()
  | some (.file _) => .error .notADirectory
  | none => .error .notFound

/-- The most bytes of a name. -/
def maxName : Nat := 255

/-- A path has fewer bytes. -/
def maxPath : Nat := 4096

/-- Goes down from a key by a name. -/
def enter (key : Key) (name : Text) : Except OsError Key :=
  if maxName < name.size then .error .nameTooLong else .ok (key ++ [String.ofList name])

/-- Follows the pieces of a path from a key on. -/
def follow (d : Disk) (key : Key) : List Text → Except OsError Key
  | [] => .ok key
  | piece :: rest =>
    match d.checkFolder key with
    | .error cause => .error cause
    | .ok () =>
      match Path.step? piece with
      | none => d.follow key rest
      | some (.name s) =>
        match enter key s with
        | .error cause => .error cause
        | .ok key => d.follow key rest
      -- Above the root is the root.
      | some _ => d.follow key.dropLast rest

/-- Refuses a path that no operation takes. -/
def checkPath (path : Text) : Except OsError Unit :=
  if path.contains '\x00' then .error .badName
  else if maxPath ≤ path.size then .error .nameTooLong
  else if path.isEmpty then .error .notFound
  else .ok ()

/-- Where a path starts. -/
def start (d : Disk) (path : Text) : Key := if Path.isAbsolute path then [] else d.cwd

/-- The key that a path leads to. -/
def locate (d : Disk) (path : String) : Except OsError Key :=
  match checkPath path.toList with
  | .error cause => .error cause
  | .ok () => d.follow (d.start path.toList) (Path.pieces path.toList)

/-- The entry that a path leads to. -/
def entryAt (d : Disk) (path : String) : Except OsError (Key × Entry) :=
  match d.locate path with
  | .error cause => .error cause
  | .ok key =>
    match d.get? key with
    | some e => .ok (key, e)
    | none => .error .notFound

/-- The key and the bytes of a file. -/
def fileAt (d : Disk) (path : String) : Except Fault (Key × ByteArray) :=
  match d.entryAt path with
  | .ok (key, .file bytes) => .ok (key, bytes)
  | .ok (_, .directory) => .error ⟨.readFile, path, .isADirectory⟩
  | .error cause => .error ⟨.openFile, path, cause⟩

def readBytes (d : Disk) (path : String) : Except Fault ByteArray := (d.fileAt path).map (·.2)

def readText (d : Disk) (path : String) : Except Fault Text :=
  match d.readBytes path with
  | .error fault => .error fault
  | .ok bytes =>
    match String.fromUTF8? bytes with
    | some s => .ok s.toList
    | none => .error ⟨.readFile, path, .notText⟩

def isFile (d : Disk) (path : String) : Bool :=
  match d.entryAt path with
  | .ok (_, .file _) => true
  | _ => false

/-- Writes a file, new or in place of another one. -/
def writeFile (d : Disk) (path : String) (bytes : ByteArray) : Except Fault Disk :=
  match d.locate path with
  | .error cause => .error ⟨.createFile, path, cause⟩
  | .ok key =>
    if d.get? key = some .directory then .error ⟨.createFile, path, .isADirectory⟩
    else .ok (d.put key (.file bytes))

/-- Takes a file away, and never a directory. -/
def removeFile (d : Disk) (path : String) : Except OsError Disk :=
  match d.entryAt path with
  | .error cause => .error cause
  | .ok (_, .directory) => .error .isADirectory
  | .ok (key, .file _) => .ok (d.erase key)

def isFolder (d : Disk) (path : String) : Bool :=
  match d.entryAt path with
  | .ok (_, .directory) => true
  | _ => false

/-- Makes one directory in a directory that is there. -/
def makeFolder (d : Disk) (path : Text) : Except OsError Disk := do
  checkPath path
  let pieces := Path.trimSlashes (Path.pieces path)
  let key ← d.follow (d.start path) pieces.dropLast
  d.checkFolder key
  match pieces.getLast?.bind Path.step? with
  | some (.name s) =>
    let key ← enter key s
    if (d.get? key).isSome then throw .alreadyExists
    return d.put key .directory
  | _ => throw .alreadyExists

/-- Makes the first of some directories, each above the one before it, that can be made. Gives
those before it, and the disk. -/
def makeFirst (d : Disk) : List Text → Except OsError (List Text × Disk)
  | [] => .ok ([], d)
  | path :: above =>
    if path = [] then .ok ([], d)
    else
      match d.makeFolder path with
      | .ok d' => .ok ([], d')
      | .error cause =>
        if cause = .notFound then (d.makeFirst above).map fun (more, d') => (path :: more, d')
        else if cause = .alreadyExists ∧ d.isFolder (String.ofList path) then .ok ([], d)
        else .error cause

/-- Makes directories that are not there yet, one after the other; those made before a refusal
stay. -/
def makeEach (d : Disk) : List Text → Except OsError Unit × Disk
  | [] => (.ok (), d)
  | path :: more =>
    match d.makeFolder path with
    | .ok d' => d'.makeEach more
    | .error cause =>
      if cause = .alreadyExists ∧ d.isFolder (String.ofList path) then d.makeEach more
      else (.error cause, d)

/-- Makes a directory and those above it. -/
def makeFolders (d : Disk) (path : String) : Except Fault Unit × Disk :=
  let (made, d') : Except OsError Unit × Disk := match d.makeFirst (Path.ancestors path.toList) with
    | .error cause => (.error cause, d)
    | .ok (more, d') => d'.makeEach more.reverse
  (made.mapError fun cause => ⟨.createFolder, path, cause⟩, d')

end Disk
end SourceMend
