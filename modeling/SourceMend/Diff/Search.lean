import SourceMend.Diff.Edit

/-!
A shortest way from one list of lines to another. The search runs from both ends at once, one more
edit each round, until the two meet; the lists are cut where they met, and both halves are treated
in the same way. Diagonal `k` holds the points with `k` more old lines than new ones behind them.
-/
namespace SourceMend.Diff

variable {α : Type} [DecidableEq α]

/-- How many items are equal from place `i` of `a` and place `j` of `b` on. -/
def runLength (a b : Array α) (i j : Nat) : Nat :=
  if h : i < a.size then
    if h' : j < b.size then
      if a[i] = b[j] then runLength a b (i + 1) (j + 1) + 1 else 0
    else 0
  else 0
termination_by a.size - i

/-- A way along one diagonal: `edge` old lines are behind the last edit, `reach` behind the equal
lines that follow it. -/
structure Reach where
  diagonal : Int
  edge : Nat
  reach : Nat
  deriving DecidableEq, Repr, Inhabited

/-- The number of new lines behind a point with `x` old lines on this diagonal. -/
def Reach.across (r : Reach) (x : Nat) : Nat := ((x : Int) - r.diagonal).toNat

/-- The reaches of one round, on the diagonals `d`, `d - 2`, …, `-d`. -/
abbrev Frontier := Array Reach

/-- Where the `i`-th way of a round starts, one edit behind the better of its two neighbours. -/
def edgeAt (prev : Frontier) (i : Nat) : Nat :=
  match (if i = 0 then none else prev[i - 1]?), prev[i]? with
  | some a, some b => if b.reach < a.reach then a.reach else b.reach + 1
  | some a, none => a.reach
  | none, some b => b.reach + 1
  | none, none => 0

/-- Round `d`, from the frontier of the round before. -/
def advance (a b : Array α) (prev : Frontier) (d : Nat) : Frontier :=
  (Array.range (d + 1)).map fun (i : Nat) =>
    let edge := edgeAt prev i
    let way : Reach := ⟨(d : Int) - 2 * (i : Int), edge, edge⟩
    { way with reach := edge + runLength a b edge (way.across edge) }

/-- The way on a given diagonal. -/
def wayOn? (f : Frontier) (diagonal : Int) : Option Reach :=
  let place := ((f.size : Int) - 1 - diagonal) / 2
  if place < 0 then none else (f[place.toNat]?).filter (·.diagonal = diagonal)

/-- The first way of `f` that meets a way of the other direction; `n` and `delta` are the number
of old lines and by how much it exceeds that of the new ones. -/
def meeting? (n : Nat) (delta : Int) (f other : Frontier) : Option Reach :=
  f.find? fun way => (wayOn? other (delta - way.diagonal)).any fun o => n ≤ way.reach + o.reach

/-- The rounds from `d` on, at most `fuel` of them: how many old and new lines lie before the
place where the two directions meet. -/
def rounds (a b ra rb : Array α) : (fuel : Nat) → (d : Nat) → (fwd bwd : Frontier) →
    Option (Nat × Nat)
  | 0, _, _, _ => none
  | fuel + 1, d, fwd, bwd =>
    let n := a.size
    let delta : Int := a.size - b.size
    let fwd' := advance a b fwd d
    match if delta % 2 = 0 then none else meeting? n delta fwd' bwd with
    | some way => some (way.edge, way.across way.edge)
    | none =>
      let bwd' := advance ra rb bwd d
      match if delta % 2 = 0 then meeting? n delta bwd' fwd' else none with
      | some way => some (n - way.reach, b.size - way.across way.reach)
      | none => rounds a b ra rb fuel (d + 1) fwd' bwd'

/-- Where to cut two lists of lines. -/
def middle? (old new : List α) : Option (Nat × Nat) :=
  rounds old.toArray new.toArray old.reverse.toArray new.reverse.toArray
    ((old.length + new.length + 1) / 2 + 1) 0 #[] #[]

def keepRun (xs : List α) : List (Edit α) := if xs.isEmpty then [] else [.keep xs]

omit [DecidableEq α] in
@[simp] theorem text_keepRun (side : Side) (xs : List α) : text side (keepRun xs) = xs := by
  unfold keepRun
  split
  · simp_all
  · simp [Edit.lines]

/-- A shortest script from `old` to `new`. -/
def search (old new : List α) : List (Edit α) :=
  let front := shared old new
  let old1 := old.drop front
  let new1 := new.drop front
  let back := sharedEnd new1 old1
  let old2 := old1.take (old1.length - back)
  let new2 := new1.take (new1.length - back)
  let changes :=
    if old2 = [] then (if new2 = [] then [] else [.only .new new2])
    else if new2 = [] then [.only .old old2]
    else
      match middle? old2 new2 with
      | some (x, y) =>
        if _h : 0 < x + y ∧ x + y < old2.length + new2.length then
          search (old2.take x) (new2.take y) ++ search (old2.drop x) (new2.drop y)
        else [.only .old old2, .only .new new2]
      | none => [.only .old old2, .only .new new2]
  keepRun (old.take front) ++ changes ++ keepRun (old1.drop (old1.length - back))
termination_by old.length + new.length
decreasing_by
  · have ho : old2.length ≤ old.length := by simp [old2, old1]; omega
    have hn : new2.length ≤ new.length := by simp [new2, new1]; omega
    have hx := List.length_take_le x old2
    have hy := List.length_take_le y new2
    change (old2.take x).length + (new2.take y).length < _
    omega
  · have ho : old2.length ≤ old.length := by simp [old2, old1]; omega
    have hn : new2.length ≤ new.length := by simp [new2, new1]; omega
    have := List.length_pos_iff.2 (show old2 ≠ [] by assumption)
    have := List.length_pos_iff.2 (show new2 ≠ [] by assumption)
    change (old2.drop x).length + (new2.drop y).length < _
    rw [List.length_drop, List.length_drop]
    omega

end SourceMend.Diff
