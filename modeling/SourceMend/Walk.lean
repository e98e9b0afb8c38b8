import SourceMend.Disk.Listing
import SourceMend.Exclusion
import SourceMend.Report.Basic

/-!
The walk over the roots of a run. Roots come in the order given, the files below a directory in
the order of their names. Files that are left out are listed too, with the reason, and a path is
listed once. What the walk cannot get into is listed each time that it comes by.
-/
namespace SourceMend

/-- A file to repair. -/
structure SourceFile where
  /-- The path by which the file is read and written. -/
  path : String
  /-- The path in reports and for overrides. -/
  display : String
  deriving DecidableEq, Repr, Inhabited

/-- Why a walk gets no further. -/
inductive Obstacle where
  /-- The directory on this path cannot be read. -/
  | unreadable (path : String) (cause : OsError)
  | notText
  deriving DecidableEq, Repr, Inhabited

def Obstacle.message : Obstacle → String
  | .unreadable path cause =>
    s!"unreadable: IO error for operation on {path}: {cause.message}"
  | .notText => "path is not valid UTF-8"

inductive WalkEntry where
  | source (file : SourceFile)
  | skipped (path : String) (cause : SkipCause)
  | blocked (path : String) (obstacle : Obstacle)
  deriving DecidableEq, Repr, Inhabited

namespace WalkEntry

def source? : WalkEntry → Option SourceFile
  | .source file => some file
  | .skipped _ _ | .blocked _ _ => none

def skipped? : WalkEntry → Option SkippedPath
  | .source _ => none
  | .skipped path cause => some ⟨path, cause.message⟩
  | .blocked path obstacle => some ⟨path, obstacle.message⟩

end WalkEntry

inductive WalkError where
  | missingRoot (root : String)
  | invalidExclude (cause : ExclusionError)
  deriving DecidableEq, Repr, Inhabited

def WalkError.message : WalkError → String
  | .missingRoot root => s!"root {root} does not exist"
  | .invalidExclude cause => cause.message

structure Walker where
  roots : List String
  /-- Without the dot, in small letters. -/
  extensions : List Text
  exclusion : Exclusion
  deriving Repr, Inhabited

namespace Walker

def lowercase (t : Text) : Text := t.map Char.toLower

/-- Extensions may be given with a dot and in any letter case. -/
def of (roots extensions : List String) (exclusion : Exclusion) : Walker where
  roots
  extensions := extensions.map fun e => lowercase (e.toList.dropWhile (· = '.'))
  exclusion

/-- Backslashes count as slashes. -/
def slashes (t : Text) : Text := t.map fun c => if c = '\\' then '/' else c

/-- The path in reports: with slashes only, and without one `./` in front. -/
def displayPath (path : String) : String :=
  String.ofList <|
    match slashes path.toList with
    | '.' :: '/' :: rest => rest
    | t => t

def selects (w : Walker) (path : String) : Bool :=
  (Path.extension? path.toList).any fun ext => w.extensions.contains (lowercase ext)

/-- The entry of a file; `seen` is its path as the exclusion sees it. -/
def classify (w : Walker) (path display seen : String) : WalkEntry :=
  match w.exclusion.cause? seen with
  | some cause => .skipped display cause
  | none => .source ⟨path, display⟩

/-- The entries so far, and the display paths that are taken. -/
structure State where
  entries : List WalkEntry := []
  taken : List String := []

/-- Adds an entry unless its display path is taken. -/
def State.add (st : State) (display : String) (e : WalkEntry) : State :=
  if st.taken.contains display then st
  else { entries := st.entries ++ [e], taken := display :: st.taken }

/-- Adds an entry, whatever is taken. -/
def State.note (st : State) (e : WalkEntry) : State := { st with entries := st.entries ++ [e] }

/-- A root that is a file. -/
def visitFile (w : Walker) (st : State) (root : String) : State :=
  let display := displayPath root
  st.add display <|
    if w.selects root then w.classify root display display
    else .skipped display .otherExtension

/-- A file below a root that is a directory; `names` leads from the root to it. -/
def visitBelow (w : Walker) (root : String) (st : State) (names : Key) : State :=
  let below := Path.ofPieces (names.map String.toList)
  let path := Path.below root names
  let display := displayPath path
  if w.selects path then
    st.add display (w.classify path display (String.ofList (slashes below)))
  else st

/-- A directory that cannot be read. -/
def closedEntry (root : String) (names : Key) (cause : OsError) : WalkEntry :=
  let path := Path.below root names
  .blocked (String.ofList (slashes path.toList)) (.unreadable path cause)

/-- A file with a name on the way to it that is no text. -/
def strayEntry (root : String) (names : List (List UInt8)) : WalkEntry :=
  let below := Path.ofPieces (names.map Text.ofBytesLossy)
  .blocked (String.ofList (Path.join root.toList below)) .notText

/-- What the walk comes by below a root that is a directory. -/
def visitSighting (w : Walker) (root : String) (st : State) : Sighting → State
  | .file names => w.visitBelow root st names
  | .closed names cause => st.note (closedEntry root names cause)
  | .stray names => st.note (strayEntry root names)

def visitRoot (w : Walker) (d : Disk) (st : State) (root : String) : Except WalkError State :=
  match d.entryAt root with
  | .error _ => .error (.missingRoot root)
  | .ok (_, .file _) => .ok (w.visitFile st root)
  | .ok (key, .directory) => .ok ((d.sightings root key).foldl (w.visitSighting root) st)

def visitRoots (w : Walker) (d : Disk) (st : State) : List String → Except WalkError State
  | [] => .ok st
  | root :: rest => do w.visitRoots d (← w.visitRoot d st root) rest

def walk (w : Walker) (d : Disk) : Except WalkError (List WalkEntry) :=
  (w.visitRoots d {} w.roots).map (·.entries)

end Walker
end SourceMend
