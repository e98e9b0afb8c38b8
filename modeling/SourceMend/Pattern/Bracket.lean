import SourceMend.Pattern.Escape

/-!
Classes in brackets: characters, ranges, named classes and further brackets, joined, or set
against each other by `&&`, `--` and `~~`. The readers spend fuel on each member, and `room` on
each bracket inside another.
-/
namespace SourceMend.Pattern.Parser

/-- The classes that are named inside brackets. -/
def namedClass : String → Option CharSet
  | "alnum" => some [(48, 57), (65, 90), (97, 122)]
  | "alpha" => some [(65, 90), (97, 122)]
  | "ascii" => some [(0, 127)]
  | "blank" => some [(9, 9), (32, 32)]
  | "cntrl" => some [(0, 31), (127, 127)]
  | "digit" => some asciiDigit
  | "graph" => some [(33, 126)]
  | "lower" => some [(97, 122)]
  | "print" => some [(32, 126)]
  | "punct" => some [(33, 47), (58, 64), (91, 96), (123, 126)]
  | "space" => some asciiSpace
  | "upper" => some [(65, 90)]
  | "word" => some asciiWord
  | "xdigit" => some [(48, 57), (65, 70), (97, 102)]
  | _ => none

/-- Reads `:name:]` or `:^name:]` after an opening bracket: whether it is negated, and the set. -/
def namedClass? (cs : Text) : Option (Bool × CharSet × Text) :=
  match cs with
  | ':' :: r =>
    let negated := r.head? = some '^'
    let r := if negated then r.tail else r
    match r.dropWhile (· ≠ ':') with
    | ':' :: ']' :: rest =>
      (namedClass (String.ofList (r.takeWhile (· ≠ ':')))).map fun s => (negated, s, rest)
    | _ => none
  | _ => none

/-- One member of a class, before it is known whether it starts a range. -/
def classItem (fl : Flags) (cs : Text) : Except Error (Escape × Text) :=
  match cs with
  | [] => .error .unclosedClass
  | '\\' :: r => escape fl r
  | c :: r => .ok (.literal c, r)

/-- A character as a member; where only ASCII characters count it has to be one. -/
def memberChar (fl : Flags) (c : Char) : Except Error Nat :=
  if fl.ascii ∧ 0x7F < c.toNat then .error .splitCharacter else .ok c.toNat

/-- The character that decides whether a hyphen makes a range: the next one behind blanks and
signs of comments. -/
def behindHyphen (fl : Flags) (cs : Text) : Option Char :=
  if fl.ignoreBlank then (go false cs).or cs.head? else cs.head?
where
  go (comment : Bool) : Text → Option Char
    | [] => none
    | c :: cs =>
      if isBlank c then go comment cs
      else if !comment && c = '#' then go true cs
      else some c

/-- One member of a class or a range of members. -/
def classRange (fl : Flags) (cs : Text) : Except Error (CharSet × Text) := do
  let (first, rest) ← classItem fl cs
  let rest := skip fl rest
  let single : Except Error (CharSet × Text) := match first with
    | .literal c => (memberChar fl c).map fun n => ([(n, n)], rest)
    | .set s => .ok (s, rest)
    | .look _ => .error .escape
  match rest with
  | [] => .error .unclosedClass
  | '-' :: r =>
    let c := behindHyphen fl r
    if c = some ']' ∨ c = some '-' then single
    else
      let (last, rest) ← classItem fl (skip fl r)
      match first, last with
      | .literal a, .literal b =>
        let lo ← memberChar fl a
        let hi ← memberChar fl b
        if lo ≤ hi then .ok ([(lo, hi)], rest) else .error .classRange
      | _, _ => .error .classRange
  | _ => single

inductive ClassOp where
  | inter
  | diff
  | symmDiff

def ClassOp.apply : ClassOp → CharSet → CharSet → CharSet
  | .inter => CharSet.inter
  | .diff => CharSet.diff
  | .symmDiff => CharSet.symmDiff

/-- A set and how deep its written form is nested. -/
structure Nested where
  set : CharSet
  depth : Nat := 0

/-- The set so far: the operand before the last set operator, and the members since. -/
structure ClassState where
  left : Option (ClassOp × Nested) := none
  members : Nested := { set := [] }
  /-- The number of members. -/
  count : Nat := 0

namespace ClassState

def add (st : ClassState) (s : CharSet) (depth : Nat) : ClassState :=
  { st with
    members := ⟨st.members.set.union s, Nat.max st.members.depth depth⟩
    count := st.count + 1 }

/-- The members since the last operator; more than one are nested in their union. -/
def union (st : ClassState) : Nested :=
  if st.count ≤ 1 then st.members else { st.members with depth := st.members.depth + 1 }

def close (fl : Flags) (st : ClassState) : Nested :=
  match st.left with
  | none => st.union
  | some (op, l) =>
    ⟨op.apply (fl.fold l.set) (fl.fold st.union.set), Nat.max l.depth st.union.depth + 1⟩

def operate (fl : Flags) (st : ClassState) (op : ClassOp) : ClassState :=
  { left := some (op, st.close fl) }

end ClassState

/-- Reads hyphens, which stand for themselves at the start. -/
def leadingHyphens (fl : Flags) (st : ClassState) (cs : Text) : ClassState × Text :=
  match cs with
  | [] => (st, [])
  | c :: r =>
    if c = '-' then leadingHyphens fl (st.add (CharSet.singleton '-') 0) (skip fl r)
    else (st, c :: r)
termination_by cs.length
decreasing_by
  have := length_skip_le fl r
  simp
  omega

/-- Reads the leading hyphens, or a leading closing bracket, which stand for themselves. -/
def classLead (fl : Flags) (cs : Text) : ClassState × Text :=
  match cs with
  | ']' :: r => (({} : ClassState).add (CharSet.singleton ']') 0, skip fl r)
  | _ => leadingHyphens fl {} cs

mutual
/-- Reads a class after its opening bracket. -/
def bracketed (fuel room : Nat) (fl : Flags) (cs : Text) : Except Error (Nested × Text) :=
  match fuel with
  | 0 => .error .nesting
  | fuel + 1 => do
    if room = 0 then throw .nesting
    let cs := skip fl cs
    let negated := cs.head? = some '^'
    let cs := if negated then skip fl cs.tail else cs
    let (st, cs) := classLead fl cs
    let (nested, rest) ← classBody fuel (room - 1) fl st cs
    let set ← fl.negate negated (fl.fold nested.set)
    return (⟨set, nested.depth + 1⟩, rest)

def classBody (fuel room : Nat) (fl : Flags) (st : ClassState) (cs : Text) :
    Except Error (Nested × Text) :=
  match fuel with
  | 0 => .error .nesting
  | fuel + 1 =>
    match skip fl cs with
    | [] => .error .unclosedClass
    | ']' :: rest => .ok (st.close fl, rest)
    | '&' :: '&' :: r => classBody fuel room fl (st.operate fl .inter) r
    | '-' :: '-' :: r => classBody fuel room fl (st.operate fl .diff) r
    | '~' :: '~' :: r => classBody fuel room fl (st.operate fl .symmDiff) r
    | '[' :: r =>
      match namedClass? r with
      | some (negated, s, rest) => do
        let set ← fl.negate negated (fl.fold s)
        classBody fuel room fl (st.add set 0) rest
      | none => do
        let (nested, rest) ← bracketed fuel room fl r
        classBody fuel room fl (st.add nested.set nested.depth) rest
    | cs => do
      let (s, rest) ← classRange fl cs
      classBody fuel room fl (st.add s 0) rest
end

end SourceMend.Pattern.Parser
