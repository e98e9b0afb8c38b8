import SourceMend.Disk.Basic
import SourceMend.Text.Lossy

/-!
What there is to see below a directory, in the order of the names. A directory that cannot be read
hides what is in it. Names that are no text are shown as near to one as they come.
-/
namespace SourceMend

/-- What one comes by below a directory; `names` lead from the directory to it. -/
inductive Sighting where
  | file (names : Key)
  /-- A directory that cannot be read. -/
  | closed (names : Key) (cause : OsError)
  /-- A file with a name on the way to it that is no text. -/
  | stray (names : List (List UInt8))
  deriving DecidableEq

/-- The bytes of the names. -/
def Sighting.bytes : Sighting → List (List UInt8)
  | .file names | .closed names _ => names.map fun name => name.toUTF8.data.toList
  | .stray names => names

/-- The path of what `names` lead to from a root. -/
def Path.below (root : String) (names : Key) : String :=
  if names = [] then root
  else String.ofList (Path.join root.toList (Path.ofPieces (names.map String.toList)))

def Entry.isFile : Entry → Bool
  | .file _ => true
  | .directory => false

namespace Disk

/-- The names of the entries of a kind below a key, in their order. -/
def namesBelow (d : Disk) (wanted : Entry → Bool) (key : Key) : List Key :=
  let below := d.entries.filterMap fun (k, e) =>
    if wanted e ∧ key.isPrefixOf k ∧ k ≠ key then some (k.drop key.length) else none
  below.mergeSort fun a b => !b.lex a

/-- The files below a key, each with the names that lead to it, in the order of the names. -/
def filesBelow (d : Disk) (key : Key) : List Key := d.namesBelow Entry.isFile key

/-- Why the directory to which `names` lead from a root cannot be read. -/
def obstacle? (d : Disk) (root : String) (key names : Key) : Option OsError :=
  match checkPath (Path.below root names).toList with
  | .error cause => some cause
  | .ok () => d.closed.lookup (key ++ names)

/-- Whether all directories above the last name can be read. -/
def isOpen (d : Disk) (root : String) (key names : Key) : Bool :=
  (List.range names.length).all fun n => (d.obstacle? root key (names.take n)).isNone

/-- The directories that cannot be read, but those above them can. -/
def closedBelow (d : Disk) (root : String) (key : Key) : List Sighting :=
  let folders := [] :: d.namesBelow (!·.isFile) key
  (folders.filter (d.isOpen root key)).filterMap fun names =>
    (d.obstacle? root key names).map (.closed names)

/-- The names in front of the first one that is no text. -/
def textNames : List (List UInt8) → Key
  | [] => []
  | bytes :: rest =>
    match String.fromUTF8? ⟨bytes.toArray⟩ with
    | some name => name :: textNames rest
    | none => []

def straysBelow (d : Disk) (root : String) (key : Key) : List Sighting :=
  let above := key.map fun name => name.toUTF8.data.toList
  let strays := (d.strays.filter above.isPrefixOf).map (·.drop above.length)
  let seen := strays.filter fun names =>
    let front := textNames names
    d.isOpen root key front && (d.obstacle? root key front).isNone
  seen.map .stray

/-- All that one comes by below the directory at a key, which is read from `root` down. -/
def sightings (d : Disk) (root : String) (key : Key) : List Sighting :=
  let files := ((d.filesBelow key).filter (d.isOpen root key)).map .file
  let all := files ++ d.closedBelow root key ++ d.straysBelow root key
  all.mergeSort fun a b => !b.bytes.lex a.bytes

end Disk
end SourceMend
