import SourceMend.Text.Basic

/-!
Paths as text. Slashes divide a path into pieces. An empty piece and a `.` count for nothing,
except that a path may start at the root or with a `.` of its own.
-/
namespace SourceMend.Path

/-- The pieces between the slashes; always one more than there are slashes. -/
def pieces : Text → List Text
  | [] => [[]]
  | c :: cs =>
    if c = '/' then [] :: pieces cs
    else
      match pieces cs with
      | [] => [[c]]
      | p :: ps => (c :: p) :: ps

def ofPieces : List Text → Text
  | [] => []
  | [p] => p
  | p :: ps => p ++ '/' :: ofPieces ps

theorem pieces_ne_nil (t : Text) : pieces t ≠ [] := by
  cases t with
  | nil => simp [pieces]
  | cons c cs =>
    simp only [pieces]
    split
    · simp
    · split <;> simp

/-- Slashes put back between the pieces give the path. -/
theorem ofPieces_pieces (t : Text) : ofPieces (pieces t) = t := by
  induction t with
  | nil => rfl
  | cons c cs ih =>
    simp only [pieces]
    have hne := pieces_ne_nil cs
    generalize pieces cs = ps at ih hne
    match ps, hne with
    | p :: [], _ => by_cases h : c = '/' <;> simp_all [ofPieces]
    | p :: q :: qs, _ => by_cases h : c = '/' <;> simp_all [ofPieces]

/-- One step of a path. -/
inductive Step where
  | root
  /-- A `.` at the very start. -/
  | here
  | up
  | name (s : Text)
  deriving DecidableEq, Repr, Inhabited

def step? (piece : Text) : Option Step :=
  if piece = [] ∨ piece = ['.'] then none
  else if piece = ['.', '.'] then some .up
  else some (.name piece)

/-- The steps of a path. Paths that differ only in pieces that count for nothing have the same. -/
def steps (t : Text) : List Step :=
  match pieces t with
  | [] => []
  | first :: rest =>
    let start : List Step :=
      if first = [] then (if rest = [] then [] else [.root])
      else if first = ['.'] then [.here]
      else (step? first).toList
    start ++ rest.filterMap step?

def isAbsolute (t : Text) : Bool := t.head? = some '/'

/-- Whether a path lies at or below another, step by step. -/
def startsWith (t base : Text) : Bool := (steps base).isPrefixOf (steps t)

/-- The name of the file; none when the path ends in `..` or has no name. -/
def fileName? (t : Text) : Option Text :=
  match (steps t).getLast? with
  | some (.name s) => some s
  | _ => none

/-- What follows the last dot of a name that does not start with it. -/
def extensionOf? (name : Text) : Option Text :=
  let ext := (name.reverse.takeWhile (· ≠ '.')).reverse
  if ext.length + 1 < name.length then some ext else none

def extension? (t : Text) : Option Text := (fileName? t).bind extensionOf?

/-- Drops pieces that count for nothing from the end, but not the first one. -/
def trimEnd : List Text → List Text
  | [] => []
  | [p] => [p]
  | p :: ps =>
    match trimEnd ps with
    | [q] => if q = [] ∨ q = ['.'] then [p] else [p, q]
    | qs => p :: qs

/-- The path without its last step; none when there is no step to take off. -/
def parent? (t : Text) : Option Text :=
  match (steps t).getLast? with
  | none | some .root => none
  | some _ =>
    match trimEnd (trimEnd (pieces t)).dropLast with
    | [[]] => some ['/']
    | ps => some (ofPieces ps)

/-- The path, its parent, the parent of that, and so on; the fuel is more than their number. -/
def ancestors (t : Text) : List Text := go (t.length + 1) t
where
  go : Nat → Text → List Text
    | 0, _ => []
    | fuel + 1, t =>
      match parent? t with
      | some p => t :: go fuel p
      | none => [t]

/-- Drops empty pieces from the end. -/
def trimSlashes (pieces : List Text) : List Text :=
  (pieces.reverse.dropWhile (·.isEmpty)).reverse

/-- The parent, unless it is the empty path. -/
def folder? (t : Text) : Option Text := (parent? t).filter (· ≠ [])

/-- `t` seen from `base`; an absolute path stays what it is. -/
def join (base t : Text) : Text :=
  if isAbsolute t ∨ base = [] then t
  else if base.getLast? = some '/' then base ++ t
  else base ++ '/' :: t

end SourceMend.Path
