import SourceMend.Text.Basic

/-! Lines. A line keeps the line feed that ends it; only the last one may have none. -/
namespace SourceMend.Text

def splitLines : Text → List Text
  | [] => []
  | c :: cs =>
    if c = '\n' then [c] :: splitLines cs
    else
      match splitLines cs with
      | [] => [[c]]
      | line :: rest => (c :: line) :: rest

/-- The lines in a row are the text. -/
@[simp] theorem flatten_splitLines (t : Text) : (splitLines t).flatten = t := by
  induction t with
  | nil => rfl
  | cons c cs ih =>
    simp only [splitLines]
    split
    · simp [ih]
    · split <;> simp_all

/-- Whether a line has its line feed. -/
def isTerminated (line : Text) : Bool := line.getLast? = some '\n'

end SourceMend.Text
