import SourceMend.Glob
import SourceMend.Path
import SourceMend.Text.Alphabet

/-!
Which paths are never repaired. Paths are seen from the root of the walk, with slashes between
the names.
-/
namespace SourceMend

/-- Why a path is left out. -/
inductive SkipCause where
  /-- It lies in a directory with this name. -/
  | segment (name : String)
  /-- It lies at or below this path. -/
  | below (path : String)
  /-- It ends in this text. -/
  | ending (suffix : String)
  | pattern (glob : String)
  | otherExtension
  deriving DecidableEq, Repr, Inhabited

def SkipCause.message : SkipCause → String
  | .segment s => s!"excluded segment `{s}`"
  | .below s => s!"excluded prefix `{s}`"
  | .ending s => s!"excluded suffix `{s}`"
  | .pattern s => s!"excluded pattern `{s}`"
  | .otherExtension => "extension not selected"

structure Exclusion where
  segments : List String := []
  folders : List String := []
  endings : List String := []
  globs : List Glob := []
  deriving DecidableEq, Repr, Inhabited

/-- An entry that is no valid pattern. -/
structure ExclusionError where
  pattern : String
  cause : Glob.Error
  deriving DecidableEq, Repr, Inhabited

def ExclusionError.message (e : ExclusionError) : String :=
  s!"invalid exclude pattern `{e.pattern}`: {e.cause.message}"

namespace Exclusion

/-- Directories of dependencies, of version control and of build output. -/
def standard : Exclusion where
  segments := ["node_modules", ".git", ".next", "dist", "build"]

def addSegment (x : Exclusion) (s : String) : Exclusion := { x with segments := x.segments ++ [s] }

def addFolder (x : Exclusion) (s : String) : Exclusion := { x with folders := x.folders ++ [s] }

def addEnding (x : Exclusion) (s : String) : Exclusion := { x with endings := x.endings ++ [s] }

def addGlob (x : Exclusion) (s : String) : Except ExclusionError Exclusion :=
  match Glob.parse s with
  | .ok g => .ok { x with globs := x.globs ++ [g] }
  | .error cause => .error ⟨s, cause⟩

/-- A text without the blanks around it. -/
def trim (t : Text) : Text :=
  let isBlank := fun c => Alphabet.space.contains c
  ((t.dropWhile isBlank).reverse.dropWhile isBlank).reverse

/-- Drops `./` from the front as often as it stands there. -/
def dropHere : Text → Text
  | '.' :: '/' :: rest => dropHere rest
  | t => t

/-- Adds an entry as people write it. With `*`, `?` or `[` it is a glob, with a slash a path, with
a dot in front and another one later the end of a name, and otherwise the name of a directory. -/
def add (x : Exclusion) (entry : String) : Except ExclusionError Exclusion :=
  let t := trim entry.toList
  let s := String.ofList t
  if t.any fun c => c = '*' || c = '?' || c = '[' then x.addGlob s
  else if t.contains '/' then .ok (x.addFolder (String.ofList (dropHere t)))
  else if t.head? = some '.' && t.tail.contains '.' then .ok (x.addEnding s)
  else .ok (x.addSegment s)

def addAll (x : Exclusion) : List String → Except ExclusionError Exclusion
  | [] => .ok x
  | entry :: rest => do (← x.add entry).addAll rest

/-- Why a path is left out, if it is. -/
def cause? (x : Exclusion) (path : String) : Option SkipCause :=
  let t := path.toList
  let folders := (Path.pieces t).dropLast.map String.ofList
  ((folders.find? x.segments.contains).map .segment).or <|
  ((x.folders.find? fun p => Path.startsWith t p.toList).map .below).or <|
  ((x.endings.find? fun s => s.toList.isSuffixOf t).map .ending).or <|
  (x.globs.find? (·.isMatch t)).map (.pattern ·.source)

end Exclusion
end SourceMend
