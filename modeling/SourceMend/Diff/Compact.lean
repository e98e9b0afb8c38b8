import SourceMend.Diff.Edit

/-!
Compaction of a script. A run of deleted or inserted lines may slide over equal lines without a
change of either text; on its way it merges with runs of its own kind and passes those of the
other. Each run slides up as far as it can and then down as far as it can, the deletions first.
-/
namespace SourceMend.Diff

variable {α : Type} [DecidableEq α]

/-- A run of lines of one side, between the runs before it, the nearest first, and those after. -/
structure Focus (α : Type) where
  before : List (Edit α)
  lines : List α
  after : List (Edit α)
  deriving Repr

/-- Puts kept lines in front of a script. -/
def keepBefore (xs : List α) : List (Edit α) → List (Edit α)
  | .keep ys :: rest => .keep (xs ++ ys) :: rest
  | rest => .keep xs :: rest

/-- Puts kept lines behind a script that is given from its end. -/
def keepAfter (xs : List α) : List (Edit α) → List (Edit α)
  | .keep ys :: rest => .keep (ys ++ xs) :: rest
  | rest => .keep xs :: rest

/-- Slides a run up as far as it goes. -/
def slideUp (side : Side) (before : List (Edit α)) (lines : List α) (after : List (Edit α)) :
    Focus α :=
  match before with
  | [] => ⟨[], lines, after⟩
  | .keep ys :: rest =>
    let n := sharedEnd lines ys
    if n = 0 then
      if ys = [] then slideUp side rest lines after else ⟨.keep ys :: rest, lines, after⟩
    else
      let moved := ys.drop (ys.length - n)
      let left := ys.take (ys.length - n)
      slideUp side (if left = [] then rest else .keep left :: rest)
        (moved ++ lines.take (lines.length - n)) (keepBefore moved after)
  | .only s ys :: rest =>
    if s = side then slideUp side rest (ys ++ lines) after
    else slideUp side rest lines (.only s ys :: after)
termination_by weight before
decreasing_by
  · simp [Edit.weight]
  · have : n ≤ ys.length := sharedEnd_le_right lines ys
    rw [weight_cons]
    split
    · simp only [Edit.weight]
      omega
    · simp only [weight_cons, Edit.weight, List.length_take]
      omega
  · simp [Edit.weight]
  · simp [Edit.weight]

/-- Slides a run down as far as it goes. -/
def slideDown (side : Side) (before : List (Edit α)) (lines : List α) (after : List (Edit α)) :
    Focus α :=
  match after with
  | [] => ⟨before, lines, []⟩
  | .keep ys :: rest =>
    let n := shared lines ys
    if n = 0 then
      if ys = [] then slideDown side before lines rest else ⟨before, lines, .keep ys :: rest⟩
    else
      let moved := ys.take n
      let left := ys.drop n
      slideDown side (keepAfter moved before) (lines.drop n ++ moved)
        (if left = [] then rest else .keep left :: rest)
  | .only s ys :: rest =>
    if s = side then slideDown side before (lines ++ ys) rest
    else slideDown side (.only s ys :: before) lines rest
termination_by weight after
decreasing_by
  · simp [Edit.weight]
  · have : n ≤ ys.length := shared_le_right lines ys
    rw [weight_cons]
    split
    · simp only [Edit.weight]
      omega
    · simp only [weight_cons, Edit.weight, List.length_drop]
      omega
  · simp [Edit.weight]
  · simp [Edit.weight]

/-- Slides every run of one side; `before` is done, its end first. -/
def settleFrom (side : Side) : (fuel : Nat) → (before after : List (Edit α)) → List (Edit α)
  | 0, before, after => before.reverse ++ after
  | _ + 1, before, [] => before.reverse
  | fuel + 1, before, .keep xs :: rest => settleFrom side fuel (.keep xs :: before) rest
  | fuel + 1, before, .only s xs :: rest =>
    if s = side then
      let up := slideUp side before xs rest
      let down := slideDown side up.before up.lines up.after
      settleFrom side fuel (.only side down.lines :: down.before) down.after
    else settleFrom side fuel (.only s xs :: before) rest

/-- Slides every run of one side. Each step passes a line at least, so the fuel lasts. -/
def settle (side : Side) (script : List (Edit α)) : List (Edit α) :=
  settleFrom side (2 * weight script + 1) [] script

def compact (script : List (Edit α)) : List (Edit α) := settle .new (settle .old script)

end SourceMend.Diff
