import SourceMend.Pattern.Node
import SourceMend.Pattern.Utf8

/-!
The weight of a pattern: the bytes that its automata take, one that reads text forward and notes
groups, and one that reads it backward and does not. A pattern is refused when one of them takes
more than `limit` bytes. A state takes 32 bytes; one that chooses between others takes 4 more for
each, and one that tells byte ranges apart 8 more for each range.
-/
namespace SourceMend.Pattern.Weight

def limit : Nat := 10 * 1024 * 1024

inductive Direction where
  | forward
  | backward
  deriving DecidableEq, Repr, Inhabited

/-- The states so far, and the bytes that they take beyond those of every state. -/
structure Load where
  states : Nat := 0
  extra : Nat := 0
  deriving DecidableEq, Repr, Inhabited

namespace Load

def bytes (l : Load) : Nat := 32 * l.states + l.extra

/-- Adds states; none when the automaton is too heavy then. -/
def add (l : Load) (states extra : Nat) : Option Load :=
  let l := ⟨l.states + states, l.extra + extra⟩
  if l.bytes ≤ limit then some l else none

/-- Adds the same `n` times. -/
def times (f : Load → Option Load) : Nat → Load → Option Load
  | 0, l => some l
  | n + 1, l =>
    match f l with
    | some l => times f n l
    | none => none

end Load

/-- A set: ASCII characters take one state that tells their ranges apart and one behind it. -/
def addSet (d : Direction) (s : CharSet) (l : Load) : Option Load :=
  if s.all fun (_, hi) => hi ≤ 0x7F then l.add 2 (8 * s.length)
  else
    match d with
    | .forward =>
      let a := Utf8.Forward.ofSet l.states s
      l.add (a.states - l.states) (8 * a.transitions)
    | .backward =>
      let sequences := Utf8.ofSet s
      l.add (Utf8.backwardStates l.states sequences - l.states) (4 * sequences.length)

/-- The ways on from a node in a tree of byte strings. A string that ends at the node closes the
group of ways before it, so that it is preferred to the later ones. -/
abbrev Ways := List (List (Nat × List (List Nat)))

/-- Adds the rest of a string to the way that its first byte leads to. -/
def addWay (b : Nat) (rest : List Nat) :
    List (Nat × List (List Nat)) → List (Nat × List (List Nat))
  | [] => [(b, [rest])]
  | (c, rests) :: more =>
    if b = c then (c, rests ++ [rest]) :: more else (c, rests) :: addWay b rest more

/-- Sorts strings into groups of ways, the latest group first. -/
def addString (ways : Ways) (s : List Nat) : Ways :=
  match s, ways with
  | b :: rest, group :: more => addWay b rest group :: more
  | b :: rest, [] => [addWay b rest []]
  | [], ways => if ways.length = 1 ∨ ways.any (!·.isEmpty) then [] :: ways else ways

def waysOf (strings : List (List Nat)) : Ways := strings.foldl addString [[]]

/-- The load of a tree of byte strings; the fuel is more than the longest string. -/
def addTree : Nat → List (List Nat) → Load → Option Load
  | 0, _, l => some l
  | fuel + 1, strings, l => do
    let ways := waysOf strings
    let groups := ways.filter (!·.isEmpty)
    if groups.isEmpty then return l
    let l ← groups.foldlM (fun l group => do
      let l ← l.add 1 (if group.length = 1 then 0 else 8 * group.length)
      group.foldlM (fun l (_, rests) => addTree fuel rests l) l) l
    l.add 1 (4 * (groups.length + (ways.length - 1)))

/-- The texts of the branches, if all are literals. -/
def literals? (branches : List Node) : Option (List Text) :=
  branches.mapM fun
    | .literal text => some text
    | _ => none

def addLiterals (d : Direction) (texts : List Text) (l : Load) : Option Load := do
  let strings := texts.map fun t =>
    let bytes := (String.ofList t).toUTF8.toList.map UInt8.toNat
    if d = .forward then bytes else bytes.reverse
  let longest := strings.foldl (fun n s => Nat.max n s.length) 0
  addTree (longest + 1) strings (← l.add 1 0)

/-- The states that join the branches of a choice come behind the second branch. -/
def addJoin (rank : Nat) (l : Load) : Option Load := if rank = 1 then l.add 2 0 else some l

/-- Adds the states of a node. `rank` is the number of branches before it in the same choice. -/
def add (d : Direction) : Node → Nat → Load → Option Load
  | .empty, rank, l | .look _, rank, l => do addJoin rank (← l.add 1 0)
  | .literal text, rank, l => do addJoin rank (← l.add text.size 0)
  | .one set, rank, l => do addJoin rank (← addSet d set l)
  | .seq a b, rank, l => do
    match d with
    | .forward => addJoin rank (← add d b 0 (← add d a 0 l))
    | .backward => addJoin rank (← add d a 0 (← add d b 0 l))
  | .alt a b, rank, l =>
    match if rank = 0 then literals? (Node.alt a b).branches else none with
    | some texts => addLiterals d texts l
    | none => do
      let l ← add d a 0 (← l.add 0 4)
      let l ← addJoin rank l
      add d b (rank + 1) (← if b.isChoice then some l else l.add 0 4)
  | .group _ _ a, rank, l => do
    match d with
    | .forward => addJoin rank (← (← add d a 0 (← l.add 1 0)).add 1 0)
    | .backward => addJoin rank (← add d a 0 l)
  | .rep a min max _, rank, l => do
    let one (l : Load) := add d a 0 l
    let l ← match max with
      | none =>
        if min = 0 then
          if a.alwaysConsumes then do one (← l.add 1 8)
          else do (← one l).add 3 16
        else do (← Load.times one min l).add 1 8
      | some most =>
        if min = 0 ∧ most = 1 then do (← one (← l.add 1 8)).add 1 0
        else if min = most then Load.times one min l
        else do
          let l ← if min = 0 then l.add 1 0 else Load.times one min l
          Load.times (fun l => do one (← l.add 1 8)) (most - min) (← l.add 1 0)
    addJoin rank l

/-- Whether every match starts at the start of the text. -/
def startsText : Node → Bool
  | .look l => l = .textStart
  | .seq a b => startsText a || (a.zeroWidth && startsText b)
  | .alt a b => startsText a && startsText b
  | .group _ _ a => startsText a
  | .rep a min _ _ => 0 < min && startsText a
  | .empty | .literal _ | .one _ => false

/-- Whether every match ends at the end of the text. -/
def endsText : Node → Bool
  | .look l => l = .textEnd
  | .seq a b => endsText b || (b.zeroWidth && endsText a)
  | .alt a b => endsText a && endsText b
  | .group _ _ a => endsText a
  | .rep a min _ _ => 0 < min && endsText a
  | .empty | .literal _ | .one _ => false

/-- The load of a whole automaton: it skips text up to a match, unless the match is bound to an
end of the text, and then notes the match. -/
def total (d : Direction) (a : Node) : Option Load := do
  let bound := match d with
    | .forward => startsText a
    | .backward => endsText a
  let l ← ({} : Load).add (if bound then 1 else 3) (if bound then 0 else 16)
  match d with
  | .forward => (← add d a 0 (← l.add 1 0)).add 2 0
  | .backward => (← add d a 0 l).add 1 0

/-- More than any set takes: a range within a block of 64 characters has one sequence of bytes,
any other at most 21, and a sequence takes at most 164 bytes. -/
def roughSet (s : CharSet) : Nat :=
  s.foldl (fun n (lo, hi) => n + if lo / 64 = hi / 64 then 164 else 21 * 164) 128

/-- More than a node takes. -/
def rough : Node → Nat
  | .empty | .look _ => 128
  | .literal text => 80 * text.size + 128
  | .one set => roughSet set
  | .seq a b => rough a + rough b
  | .alt a b => rough a + rough b + 128
  | .group _ _ a => rough a + 128
  | .rep a min max _ => (Nat.max min (max.getD 1) + 1) * (rough a + 128)

/-- Whether the pattern is light enough. Most are, by the rough weight. -/
def fits (a : Node) : Bool :=
  rough a + 1024 ≤ limit || ((total .forward a).isSome && (total .backward a).isSome)

end SourceMend.Pattern.Weight
