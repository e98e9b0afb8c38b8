/-!
Edit scripts. A script is a list of runs: lines that both texts have, and lines that only one of
them has. Read for one side, a script gives back the whole text of that side.
-/
namespace SourceMend.Diff

/-- The two texts that are compared. -/
inductive Side where
  | old
  | new
  deriving DecidableEq, Repr, Inhabited

inductive Edit (α : Type) where
  | keep (lines : List α)
  /-- Lines of one text only: deleted ones for `old`, inserted ones for `new`. -/
  | only (side : Side) (lines : List α)
  deriving DecidableEq, Repr

variable {α : Type}

namespace Edit

/-- The lines that a text has in this run. -/
def lines (side : Side) : Edit α → List α
  | .keep xs => xs
  | .only s xs => if s = side then xs else []

/-- The lines of both texts. -/
def weight : Edit α → Nat
  | .keep xs => xs.length + 1
  | .only _ xs => xs.length + 1

end Edit

/-- The text of one side. -/
def text (side : Side) (script : List (Edit α)) : List α := script.flatMap (Edit.lines side)

@[simp] theorem text_nil (side : Side) : text side ([] : List (Edit α)) = [] := rfl

@[simp] theorem text_cons (side : Side) (e : Edit α) (es : List (Edit α)) :
    text side (e :: es) = e.lines side ++ text side es := rfl

@[simp] theorem text_append (side : Side) (a b : List (Edit α)) :
    text side (a ++ b) = text side a ++ text side b := by
  simp [text]

def weight : List (Edit α) → Nat
  | [] => 0
  | e :: es => e.weight + weight es

@[simp] theorem weight_nil : weight ([] : List (Edit α)) = 0 := rfl

@[simp] theorem weight_cons (e : Edit α) (es : List (Edit α)) :
    weight (e :: es) = e.weight + weight es := rfl

/-- How many items two lists share at the front. -/
def shared [DecidableEq α] : List α → List α → Nat
  | x :: xs, y :: ys => if x = y then shared xs ys + 1 else 0
  | _, _ => 0

/-- How many items two lists share at the end. -/
def sharedEnd [DecidableEq α] (xs ys : List α) : Nat := shared xs.reverse ys.reverse

theorem shared_le_right [DecidableEq α] (xs ys : List α) : shared xs ys ≤ ys.length := by
  fun_induction shared xs ys <;> simp_all

theorem take_shared [DecidableEq α] (xs ys : List α) :
    xs.take (shared xs ys) = ys.take (shared xs ys) := by
  fun_induction shared xs ys <;> simp_all

theorem sharedEnd_le_right [DecidableEq α] (xs ys : List α) : sharedEnd xs ys ≤ ys.length := by
  have := shared_le_right xs.reverse ys.reverse
  simpa [sharedEnd] using this

end SourceMend.Diff
