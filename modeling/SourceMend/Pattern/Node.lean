import SourceMend.Text.CharSet

/-!
The abstract form of a search pattern: literal text, single characters from a set, assertions
about a place, sequence, ordered choice, groups and repetition. `sequence`, `choice` and
`repeated` bring what they build into a simple form: literals that follow each other are joined,
a choice between single characters is a set, and what all branches of a choice start with is
matched once, before the choice.
-/
namespace SourceMend.Pattern

/-- Where a place lies, seen from the words around it. -/
inductive WordEdge where
  | boundary
  | noBoundary
  | start
  | stop
  /-- No word ends here, whatever follows. -/
  | startHalf
  /-- No word starts here, whatever stands before. -/
  | stopHalf
  deriving DecidableEq, Repr, Inhabited

/-- An assertion about a place between two characters. -/
inductive Look where
  | textStart
  | textEnd
  /-- At the start of a line; `crlf` says that a carriage return ends a line too. -/
  | lineStart (crlf : Bool)
  | lineEnd (crlf : Bool)
  /-- `ascii` says that only ASCII characters make words. -/
  | word (edge : WordEdge) (ascii : Bool)
  deriving DecidableEq, Repr, Inhabited

inductive Node where
  | empty
  | literal (text : Text)
  | one (set : CharSet)
  | look (l : Look)
  | seq (a b : Node)
  /-- Tries `a` first. -/
  | alt (a b : Node)
  | group (index : Nat) (name : Option String) (a : Node)
  /-- At least `min` times and at most `max` times; a greedy repetition tries more first. -/
  | rep (a : Node) (min : Nat) (max : Option Nat) (greedy : Bool)
  deriving DecidableEq, Repr, Inhabited

namespace Node

/-- Whether only the empty text can match. -/
def zeroWidth : Node → Bool
  | .empty | .look _ => true
  | .literal _ | .one _ => false
  | .seq a b | .alt a b => a.zeroWidth && b.zeroWidth
  | .group _ _ a => a.zeroWidth
  | .rep a _ max _ => a.zeroWidth || max = some 0

/-- The fewest bytes that can match; none when a set without members says that it may be that
nothing matches. -/
def fewestBytes? : Node → Option Nat
  | .empty | .look _ => some 0
  | .literal text => some text.size
  | .one set => set.head?.map fun (lo, _) => (Char.ofNat lo).utf8Size
  | .seq a b => do return (← a.fewestBytes?) + (← b.fewestBytes?)
  | .alt a b => do return Nat.min (← a.fewestBytes?) (← b.fewestBytes?)
  | .group _ _ a => a.fewestBytes?
  | .rep a min _ _ => a.fewestBytes?.map (min * ·)

def fewestBytes (a : Node) : Nat := a.fewestBytes?.getD 0

/-- Whether it is known that the empty text does not match. -/
def alwaysConsumes (a : Node) : Bool := 0 < a.fewestBytes

/-- A set of one member is a literal. -/
def ofSet : CharSet → Node
  | [(lo, hi)] => if lo = hi then .literal [Char.ofNat lo] else .one [(lo, hi)]
  | set => .one set

/-- Repetition. Repeating zero times forgets the groups inside, and more than one repetition of
something of zero width is the same as one. -/
def repeated (a : Node) (min : Nat) (max : Option Nat) (greedy : Bool) : Node :=
  let min' := if a.zeroWidth then Nat.min min 1 else min
  let max' := if a.zeroWidth then some (Nat.min (max.getD 1) 1) else max
  if max' = some 0 then .empty
  else if min' = 1 ∧ max' = some 1 then a
  else .rep a min' max' greedy

/-- The parts of a sequence. -/
def parts : Node → List Node
  | .empty => []
  | .seq a b => a.parts ++ b.parts
  | a => [a]

def ofParts : List Node → Node
  | [] => .empty
  | [a] => a
  | a :: rest => .seq a (ofParts rest)

/-- Puts a part in front of others; a literal joins the literal behind it. -/
def joinPart (a : Node) (rest : List Node) : List Node :=
  match a, rest with
  | .literal s, .literal t :: rest => .literal (s ++ t) :: rest
  | a, rest => a :: rest

def sequence (nodes : List Node) : Node := ofParts ((nodes.flatMap parts).foldr joinPart [])

/-- The branches of a choice. -/
def branches : Node → List Node
  | .alt a b => a.branches ++ b.branches
  | a => [a]

def ofBranches : List Node → Node
  | [] => .one []
  | [a] => a
  | a :: rest => .alt a (ofBranches rest)

def char? : Node → Option Char
  | .literal [c] => some c
  | _ => none

def set? : Node → Option CharSet
  | .one set => some set
  | _ => none

def isSequence : Node → Bool
  | .seq _ _ => true
  | _ => false

def isChoice : Node → Bool
  | .alt _ _ => true
  | _ => false

/-- The choice between branches that are all single characters, or all sets, is a set. -/
def setOfBranches? (branches : List Node) : Option CharSet :=
  match branches.mapM char? with
  | some chars => some (CharSet.ofRanges (chars.map fun c => (c.toNat, c.toNat)))
  | none => (branches.mapM set?).map fun sets => CharSet.ofRanges sets.flatten

/-- How many parts two sequences start with alike. -/
def commonParts : List Node → List Node → Nat
  | a :: s, b :: t => if a = b then commonParts s t + 1 else 0
  | _, _ => 0

/-- How many parts all branches start with alike; none when a branch is no sequence. -/
def commonLength (branches : List Node) : Nat :=
  match branches with
  | [] => 0
  | first :: others =>
    if branches.all isSequence then
      others.foldl (fun n b => Nat.min n (commonParts first.parts b.parts)) first.parts.length
    else 0

/-- Ordered choice, without looking for what the branches start with. -/
def choicePlain (nodes : List Node) : Node :=
  match nodes.flatMap branches with
  | [a] => a
  | bs => ((setOfBranches? bs).map ofSet).getD (ofBranches bs)

/-- Ordered choice. -/
def choice (nodes : List Node) : Node :=
  match nodes.flatMap branches with
  | [a] => a
  | bs =>
    match setOfBranches? bs with
    | some set => ofSet set
    | none =>
      let n := commonLength bs
      if n = 0 then ofBranches bs
      else
        let tails := bs.map fun b => sequence (b.parts.drop n)
        sequence (((bs.headD .empty).parts.take n) ++ [choicePlain tails])

/-- The groups with their names. -/
def groups : Node → List (Nat × Option String)
  | .empty | .literal _ | .one _ | .look _ => []
  | .seq a b | .alt a b => a.groups ++ b.groups
  | .group i name a => (i, name) :: a.groups
  | .rep a _ _ _ => a.groups

end Node
end SourceMend.Pattern
