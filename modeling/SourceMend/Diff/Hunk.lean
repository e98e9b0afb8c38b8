import SourceMend.Diff.Edit

/-!
Hunks: the changed places of a script with some kept lines around them. Two changes share a hunk
when the lines between them would all be context.
-/
namespace SourceMend.Diff

variable {α : Type}

/-- A changed place: the kept lines before it, and what stands there on each side. -/
structure Change (α : Type) where
  gap : List α
  removed : List α
  added : List α
  deriving DecidableEq, Repr

/-- The changes of a script, with `gap`, `removed` and `added` already read for the first of them,
and the kept lines behind the last. -/
def changesFrom (gap removed added : List α) : List (Edit α) → List (Change α) × List α
  | [] =>
    if removed.isEmpty && added.isEmpty then ([], gap) else ([⟨gap, removed, added⟩], [])
  | .keep xs :: rest =>
    if removed.isEmpty && added.isEmpty then changesFrom (gap ++ xs) [] [] rest
    else
      let (later, tail) := changesFrom xs [] [] rest
      (⟨gap, removed, added⟩ :: later, tail)
  | .only .old xs :: rest => changesFrom gap (removed ++ xs) added rest
  | .only .new xs :: rest => changesFrom gap removed (added ++ xs) rest

/-- One line of a hunk. -/
inductive Line (α : Type) where
  | context (x : α)
  | delete (x : α)
  | insert (x : α)
  deriving DecidableEq, Repr

namespace Line

def old? : Line α → Option α
  | .context x | .delete x => some x
  | .insert _ => none

def new? : Line α → Option α
  | .context x | .insert x => some x
  | .delete _ => none

end Line

structure Hunk (α : Type) where
  /-- The number of old lines before the hunk. -/
  oldBefore : Nat
  /-- The number of new lines before the hunk. -/
  newBefore : Nat
  lines : List (Line α)
  deriving DecidableEq, Repr

namespace Hunk

def old (h : Hunk α) : List α := h.lines.filterMap Line.old?

def new (h : Hunk α) : List α := h.lines.filterMap Line.new?

end Hunk

def Change.lines (c : Change α) : List (Line α) := c.removed.map .delete ++ c.added.map .insert

/-- The number of kept lines shown on each side of a change. -/
def contextSize : Nat := 3

/-- Whether the change `c` shares the hunk of the one before it. An addition behind the last old
line may stand one line further off. -/
def joins (c : Change α) (later : List (Change α)) (tail : List α) : Bool :=
  let atEnd := c.removed.isEmpty && later.isEmpty && tail.isEmpty
  c.gap.length < 2 * contextSize + if atEnd then 1 else 0

/-- A hunk with `body` behind the last lines of `gap`; before the body lie `oldPos` and `newPos`
lines. -/
def Hunk.behind (gap : List α) (oldPos newPos : Nat) (body : List (Line α)) : Hunk α :=
  let lead := gap.drop (gap.length - contextSize)
  ⟨oldPos - lead.length, newPos - lead.length, lead.map .context ++ body⟩

/-- What follows the place `oldPos`, `newPos` in the hunk that holds the change `c`, and the later
hunks. -/
def spread (tail : List α) (oldPos newPos : Nat) (c : Change α) :
    List (Change α) → List (Line α) × List (Hunk α)
  | [] => (c.lines ++ (tail.take contextSize).map .context, [])
  | d :: later =>
    let oldNext := oldPos + c.removed.length + d.gap.length
    let newNext := newPos + c.added.length + d.gap.length
    let (body, hunks) := spread tail oldNext newNext d later
    if joins d later tail then (c.lines ++ d.gap.map .context ++ body, hunks)
    else
      (c.lines ++ (d.gap.take contextSize).map .context,
        Hunk.behind d.gap oldNext newNext body :: hunks)

def hunks (script : List (Edit α)) : List (Hunk α) :=
  match changesFrom [] [] [] script with
  | ([], _) => []
  | (c :: later, tail) =>
    let pos := c.gap.length
    let (body, hunks) := spread tail pos pos c later
    Hunk.behind c.gap pos pos body :: hunks

/-- Applies hunks to the old lines from place `pos` on; refuses hunks that do not fit. -/
def applyFrom [DecidableEq α] (pos : Nat) (rest : List α) : List (Hunk α) → Option (List α)
  | [] => some rest
  | h :: hs =>
    let skip := h.oldBefore - pos
    let here := rest.drop skip
    if pos ≤ h.oldBefore ∧ skip ≤ rest.length ∧ here.take h.old.length = h.old then
      (applyFrom (h.oldBefore + h.old.length) (here.drop h.old.length) hs).map
        (rest.take skip ++ h.new ++ ·)
    else none

def applyHunks [DecidableEq α] (hs : List (Hunk α)) (old : List α) : Option (List α) :=
  applyFrom 0 old hs

end SourceMend.Diff
