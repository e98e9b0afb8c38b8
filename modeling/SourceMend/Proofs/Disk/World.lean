import SourceMend.Disk.Commit

/-!
Many parties at work on one disk. Some read files, stage new contents for them, and publish or drop
these; others write, remove and replace files in between. An act is one step of the world, so that a
list of acts is one way in which the steps of all parties follow each other. The device may refuse
any step of a commit.
-/
namespace SourceMend

/-- A record, and the key of the file that it was read from. -/
structure Reading where
  record : FileRecord
  key : Key

/-- What has become of a staged write. -/
inductive Fate where
  | live
  | published
  /-- Given up, by its owner or because the publish was refused. -/
  | dropped
  deriving DecidableEq

/-- A staged write, what it was made from, and the key of its temporary file. -/
structure Pending where
  reading : Reading
  content : Text
  write : StagedWrite
  key : Key
  fate : Fate := .live

/-- A disk, and all that was read and staged on it. -/
structure World where
  disk : Disk
  readings : List Reading := []
  staged : List Pending := []

inductive Act where
  /-- Someone else writes a file. -/
  | write (path : String) (bytes : ByteArray)
  /-- Someone else removes a file. -/
  | remove (path : String)
  /-- Someone else puts a directory in the place of a file, or where nothing is. -/
  | replace (path : String)
  | read (path : String)
  | stage (reading : Nat) (id : String) (content : Text) (device : Device)
  | publish (staged : Nat) (device : Device)
  | drop (staged : Nat)

namespace World

/-- The keys of all temporary files so far. -/
def temps (w : World) : List Key := w.staged.map (·.key)

def live? (w : World) (i : Nat) : Option Pending := w.staged[i]?.filter (·.fate = .live)

/-- The world once a staged write has met its fate. -/
def settle (w : World) (i : Nat) (p : Pending) (fate : Fate) (disk : Disk) : World :=
  { w with disk, staged := w.staged.set i { p with fate } }

def write (w : World) (path : String) (bytes : ByteArray) : World :=
  match w.disk.writeFile path bytes with
  | .ok disk => { w with disk }
  | .error _ => w

def remove (w : World) (path : String) : World :=
  match w.disk.removeFile path with
  | .ok disk => { w with disk }
  | .error _ => w

def replace (w : World) (path : String) : World :=
  match w.disk.locate path with
  | .ok key => { w with disk := w.disk.put key .directory }
  | .error _ => w

def read (w : World) (path : String) : World :=
  match w.disk.readRecord path, w.disk.locate path with
  | .ok record, .ok key => { w with readings := w.readings ++ [⟨record, key⟩] }
  | _, _ => w

def stage (w : World) (i : Nat) (id : String) (content : Text) (device : Device) : World :=
  match w.readings[i]? with
  | none => w
  | some r =>
    match w.disk.stage device id r.record content, w.disk.locate (tempPath r.record.path id) with
    | (.ok write, disk), .ok key =>
      { w with disk, staged := w.staged ++ [{ reading := r, content, write, key }] }
    | (_, disk), _ => { w with disk }

def publish (w : World) (i : Nat) (device : Device) : World :=
  match w.live? i with
  | none => w
  | some p =>
    match w.disk.publish device p.write with
    | (.ok _, disk) => w.settle i p .published disk
    | (.error _, disk) => w.settle i p .dropped disk

def drop (w : World) (i : Nat) : World :=
  match w.live? i with
  | none => w
  | some p => w.settle i p .dropped (w.disk.discard p.write)

def step (w : World) : Act → World
  | .write path bytes => w.write path bytes
  | .remove path => w.remove path
  | .replace path => w.replace path
  | .read path => w.read path
  | .stage i id content device => w.stage i id content device
  | .publish i device => w.publish i device
  | .drop i => w.drop i

def run (w : World) (acts : List Act) : World := acts.foldl step w

/-- Whether a path leads to no temporary file. -/
def Avoids (w : World) (path : String) : Prop :=
  ∀ key ∈ (w.disk.locate path).toOption, key ∉ w.temps

/-- Whether a path leads to a key that no temporary file and no record has had. -/
def Fresh (w : World) (path : String) : Prop :=
  ∀ key ∈ (w.disk.locate path).toOption, key ∉ w.temps ∧ key ∉ w.readings.map (·.key)

/-- Anything may be removed. Nobody else reads or writes temporary files, and the names of these are
new. -/
def Allows (w : World) : Act → Prop
  | .write path _ | .replace path | .read path => w.Avoids path
  | .stage i id _ _ => ∀ r ∈ w.readings[i]?, w.Fresh (tempPath r.record.path id)
  | .remove _ | .publish _ _ | .drop _ => True

/-- Whether all acts of a run are allowed when their turn comes. -/
def AllowsAll (w : World) : List Act → Prop
  | [] => True
  | a :: acts => w.Allows a ∧ (w.step a).AllowsAll acts

instance (w : World) (path : String) : Decidable (w.Avoids path) :=
  inferInstanceAs (Decidable (∀ key ∈ (w.disk.locate path).toOption, key ∉ w.temps))

instance (w : World) (path : String) : Decidable (w.Fresh path) :=
  inferInstanceAs (Decidable (∀ key ∈ (w.disk.locate path).toOption, _ ∧ _))

instance (w : World) : (a : Act) → Decidable (w.Allows a)
  | .write path _ | .replace path | .read path => inferInstanceAs (Decidable (w.Avoids path))
  | .stage i _ _ _ => inferInstanceAs (Decidable (∀ r ∈ w.readings[i]?, w.Fresh _))
  | .remove _ | .publish _ _ | .drop _ => inferInstanceAs (Decidable True)

instance decidableAllowsAll (w : World) : (acts : List Act) → Decidable (w.AllowsAll acts)
  | [] => inferInstanceAs (Decidable True)
  | a :: acts =>
    have := decidableAllowsAll (w.step a) acts
    inferInstanceAs (Decidable (w.Allows a ∧ (w.step a).AllowsAll acts))

theorem Avoids.not_mem {w : World} {path : String} {key : Key} (h : w.Avoids path)
    (hkey : w.disk.locate path = .ok key) : key ∉ w.temps :=
  h key (by rw [hkey]; rfl)

theorem Fresh.not_mem {w : World} {path : String} {key : Key} (h : w.Fresh path)
    (hkey : w.disk.locate path = .ok key) : key ∉ w.temps ∧ key ∉ w.readings.map (·.key) :=
  h key (by rw [hkey]; rfl)

end World
end SourceMend
