import Std.Data.HashMap
import SourceMend.Text.CharSet

/-!
Sets of characters as sequences of bytes. A range of characters splits into sequences of byte
ranges such that the choices of bytes in a sequence are independent of each other. An automaton
for a set shares states between sequences as far as it remembers them: a state is kept in a slot
that is computed from its transitions, and a new state takes the slot of an old one.
-/
namespace SourceMend.Pattern.Utf8

/-- One range of bytes for each byte of a character. -/
abbrev Sequence := List (Nat × Nat)

/-- Where a range of more than one sequence is cut: the end of the first part and the start of
the second one. -/
def cut? (lo hi : Nat) : Option (Nat × Nat) :=
  let overLimit := [0x7F, 0x7FF, 0xFFFF].find? fun most => lo ≤ most && most < hi
  let unaligned := [64, 64 * 64, 64 * 64 * 64].findSome? fun block =>
    if lo / block = hi / block then none
    else if lo % block ≠ 0 then some (lo / block * block + block - 1)
    else if hi % block ≠ block - 1 then some (hi / block * block - 1)
    else none
  if lo < 0xE000 ∧ 0xD7FF < hi then some (0xD7FF, 0xE000)
  else
    match overLimit with
    | some most => some (most, most + 1)
    | none => if hi ≤ 0x7F then none else unaligned.map fun last => (last, last + 1)

def bytes (n : Nat) : List Nat :=
  if n ≤ 0x7F then [n]
  else if n ≤ 0x7FF then [0xC0 + n / 64, 0x80 + n % 64]
  else if n ≤ 0xFFFF then [0xE0 + n / 4096, 0x80 + n / 64 % 64, 0x80 + n % 64]
  else [0xF0 + n / 262144, 0x80 + n / 4096 % 64, 0x80 + n / 64 % 64, 0x80 + n % 64]

/-- The sequences of a range, in rising order. -/
def sequences (lo hi : Nat) : List Sequence :=
  match cut? lo hi with
  | none => [(bytes lo).zip (bytes hi)]
  | some (last, first) =>
    if lo ≤ last ∧ last < first ∧ first ≤ hi then sequences lo last ++ sequences first hi
    else []
termination_by hi - lo
decreasing_by all_goals omega

def ofSet (s : CharSet) : List Sequence := s.flatMap fun (lo, hi) => sequences lo hi

/-- The bytes of a transition and the state that it leads to. -/
structure Transition where
  lo : Nat
  hi : Nat
  next : Nat
  deriving DecidableEq, Repr, Inhabited

/-- The slot of a list of numbers among `slots`. -/
def slotOf (slots : Nat) (numbers : List Nat) : Nat :=
  let mix (h : UInt64) (n : Nat) : UInt64 := (h ^^^ n.toUInt64) * 1099511628211
  (numbers.foldl mix 14695981039346656037).toNat % slots

/-- States and transitions that were added, and what is remembered of them by slot. -/
structure Automaton (κ : Type) where
  states : Nat
  transitions : Nat := 0
  memory : Std.HashMap Nat (κ × Nat) := {}

namespace Automaton

variable {κ : Type} [DecidableEq κ]

/-- The state for a key: the one that is remembered, or a new one with `transitions`. -/
def state (a : Automaton κ) (slot : Nat) (key : κ) (transitions : Nat) : Nat × Automaton κ :=
  let known := (a.memory[slot]?).filter (·.1 = key)
  match known with
  | some (_, id) => (id, a)
  | none =>
    (a.states,
      { states := a.states + 1
        transitions := a.transitions + transitions
        memory := a.memory.insert slot (key, a.states) })

end Automaton

/-- A state in the making: its transitions, the latest first, and the bytes of one whose target
is still open. -/
structure Draft where
  done : List Transition := []
  last : Option (Nat × Nat) := none

/-- Closes the open transition. -/
def Draft.close (d : Draft) (next : Nat) : Draft :=
  match d.last with
  | some (lo, hi) => { done := ⟨lo, hi, next⟩ :: d.done }
  | none => d

/-- The automaton that reads forward, and the path of the last sequence from its end up. -/
structure Forward where
  automaton : Automaton (List Transition)
  path : List Draft
  /-- The state behind the character. -/
  target : Nat

namespace Forward

def compile (f : Forward) (d : Draft) : Nat × Forward :=
  let key := d.done.reverse
  let slot := slotOf 10000 (key.flatMap fun t => [t.lo, t.hi, t.next])
  let (id, automaton) := f.automaton.state slot key key.length
  (id, { f with automaton })

/-- Compiles all but the first `keep + 1` drafts, and closes the transition of the last one. -/
def compileFrom (keep : Nat) : Nat → Nat → Forward → Forward
  | 0, _, f => f
  | fuel + 1, next, f =>
    match f.path with
    | [] => f
    | d :: rest =>
      if keep < rest.length then
        let (id, f) := { f with path := rest }.compile (d.close next)
        compileFrom keep fuel id f
      else { f with path := d.close next :: rest }

/-- How many drafts on the way down have the ranges of the sequence open. -/
def common : Sequence → List Draft → Nat
  | range :: s, d :: path => if d.last = some range then common s path + 1 else 0
  | _, _ => 0

def add (f : Forward) (s : Sequence) : Forward :=
  let keep := common s f.path.reverse
  let f := compileFrom keep (f.path.length + 1) f.target f
  match s.drop keep, f.path with
  | range :: more, d :: rest =>
    let opened := more.map fun r => ({ last := some r } : Draft)
    { f with path := opened.reverse ++ { d with last := some range } :: rest }
  | _, _ => f

/-- The automaton of a set, whose states are numbered from `first` on. -/
def ofSet (first : Nat) (s : CharSet) : Automaton (List Transition) :=
  let start : Forward := { automaton := { states := first + 1 }, path := [{}], target := first }
  let f := (Utf8.ofSet s).foldl add start
  let f := compileFrom 0 (f.path.length + 1) f.target f
  (f.compile (f.path.headD {})).2.automaton

end Forward

/-- Adds the states of one sequence, the first byte next to the end. -/
def addBackward (target : Nat) (a : Automaton (Nat × Nat × Nat)) (s : Sequence) :
    Automaton (Nat × Nat × Nat) :=
  (s.foldl (fun (next, a) (lo, hi) =>
    a.state (slotOf 1000 [next, lo, hi]) (next, lo, hi) 0) (target, a)).2

/-- The number of states of the automaton that reads backward, numbered from `first` on: one for
the choice between the sequences, the end, and those of the sequences. -/
def backwardStates (first : Nat) (sequences : List Sequence) : Nat :=
  (sequences.foldl (addBackward (first + 1)) { states := first + 2 }).states

end SourceMend.Pattern.Utf8
