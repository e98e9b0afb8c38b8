import SourceMend.Pattern.Bracket
import SourceMend.Pattern.Weight

/-!
The written form of patterns. There are literals, classes in brackets with ranges, negation and
nesting, the classes of words, digits and blanks, general categories, assertions, groups with and
without names, flags, and greedy and lazy repetition. There is no look-around and no back-reference.

The readers of nested forms spend fuel on each construct; the length of the pattern is enough.
They spend `room` on each group inside another, so that deep patterns are refused early.
-/
namespace SourceMend.Pattern.Parser

/-- Reads flags up to the colon or parenthesis behind them. `seen` holds what was read, the
latest first; nothing may come twice, and a minus must be followed by a flag. -/
def flagItems (fl : Flags) (seen : List Char) : Text → Except Error (Flags × Char × Text)
  | [] => .error .flag
  | c :: r =>
    if c = ':' ∨ c = ')' then
      if seen.head? = some '-' ∨ (c = ')' ∧ seen.isEmpty) then .error .flag else .ok (fl, c, r)
    else if seen.contains c then .error .flag
    else if c = '-' then flagItems fl (c :: seen) r
    else
      match fl.set? c (!seen.contains '-') with
      | some fl' => flagItems fl' (c :: seen) r
      | none => .error .flag

def isNameStart (c : Char) : Bool := c = '_' || c.isAlpha || Alphabet.nameLetter.contains c

def isNameChar (c : Char) : Bool :=
  c = '_' || c = '.' || c = '[' || c = ']' || c.isAlphanum || Alphabet.nameAlphanumeric.contains c

def groupName (cs : Text) : Except Error (String × Text) :=
  let name := cs.takeWhile (· ≠ '>')
  match name, cs.dropWhile (· ≠ '>') with
  | c :: rest, _ :: after =>
    if isNameStart c && rest.all isNameChar then .ok (String.ofList name, after)
    else .error .groupName
  | _, _ => .error .groupName

/-- The groups opened so far: how many, and the names given. -/
structure Groups where
  count : Nat := 0
  names : List String := []

inductive Opening where
  /-- Flags for the rest of the enclosing group. -/
  | flags (fl : Flags)
  /-- A group that captures nothing, with the flags inside it. -/
  | plain (fl : Flags)
  | capture (name : Option String)

/-- Reads what follows an opening parenthesis up to the body of the group. -/
def opening (fl : Flags) (groups : Groups) (cs : Text) :
    Except Error (Opening × Groups × Text) :=
  let named (r : Text) : Except Error (Opening × Groups × Text) := do
    let (name, rest) ← groupName r
    if groups.names.contains name then .error .duplicateName
    else .ok (.capture (some name), ⟨groups.count + 1, name :: groups.names⟩, rest)
  match skip fl cs with
  | '?' :: '=' :: _ | '?' :: '!' :: _ | '?' :: '<' :: '=' :: _ | '?' :: '<' :: '!' :: _ =>
    .error .lookAround
  | '?' :: 'P' :: '<' :: r => named r
  | '?' :: '<' :: r => named r
  | '?' :: r => do
    let (fl', stop, rest) ← flagItems fl [] r
    return (if stop = ')' then .flags fl' else .plain fl', groups, rest)
  | r => .ok (.capture none, { groups with count := groups.count + 1 }, r)

/-- Reads decimal digits. -/
def digits (fl : Flags) (cs : Text) : Text × Text :=
  match cs with
  | [] => ([], [])
  | c :: r =>
    if c.isDigit then
      let (ds, rest) := digits fl (skip fl r)
      (c :: ds, rest)
    else ([], c :: r)
termination_by cs.length
decreasing_by
  have := length_skip_le fl r
  simp
  omega

/-- Reads a count, with blanks around it. -/
def count (fl : Flags) (cs : Text) : Except Error (Nat × Text) :=
  let (ds, rest) := digits fl (cs.dropWhile isBlank)
  let n := ds.foldl (fun n d => n * 10 + (d.toNat - 48)) 0
  if ds.isEmpty ∨ 0xFFFFFFFF < n then .error .repetitionCount
  else .ok (n, rest.dropWhile isBlank)

/-- Reads the bounds of a counted repetition after its opening brace. A comma with nothing but
the closing brace behind it leaves the repetition open. -/
def bounds (fl : Flags) (cs : Text) : Except Error (Nat × Option Nat × Text) := do
  let (least, rest) ← count fl (skip fl cs)
  match rest with
  | '}' :: r => return (least, some least, r)
  | ',' :: r =>
    match skip fl r with
    | '}' :: r' => return (least, none, r')
    | r =>
      let (most, rest) ← count fl r
      match rest with
      | '}' :: r' => if least ≤ most then return (least, some most, r') else .error .repetitionCount
      | _ => .error .repetitionCount
  | _ => .error .repetitionCount

/-- A question mark behind a repetition makes it lazy. -/
def greed (fl : Flags) (cs : Text) : Bool × Text :=
  match cs with
  | '?' :: r => (fl.swapGreed, r)
  | _ => (!fl.swapGreed, cs)

/-- How deep the written form of a pattern may be nested. -/
def maxDepth : Nat := 250

/-- One item of a branch and how deep its written form is nested. A change of flags matches the
empty text. -/
structure Item where
  node : Node
  depth : Nat := 0
  isFlags : Bool := false

/-- The items of a branch; more than one are nested in their sequence. -/
def Item.sequence (items : List Item) : Item :=
  match items with
  | [] => ⟨.empty, 0, false⟩
  | [a] => { a with isFlags := false }
  | items =>
    ⟨Node.sequence (items.map (·.node)), items.foldl (fun n i => Nat.max n i.depth) 0 + 1, false⟩

/-- The branches of a choice; more than one are nested in it. -/
def Item.choice (branches : List Item) : Item :=
  match branches with
  | [a] => a
  | branches =>
    ⟨Node.choice (branches.map (·.node)), branches.foldl (fun n i => Nat.max n i.depth) 0 + 1,
      false⟩

/-- Repeats the item read last; a change of flags cannot be repeated. -/
def repeatLast (items : List Item) (min : Nat) (max : Option Nat) (greedy : Bool) :
    Except Error (List Item) :=
  match items with
  | a :: rest =>
    if a.isFlags then .error .nothingToRepeat
    else if maxDepth ≤ a.depth then .error .nesting
    else .ok (⟨a.node.repeated min max greedy, a.depth + 1, false⟩ :: rest)
  | [] => .error .nothingToRepeat

def literal (fl : Flags) (c : Char) : Node := Node.ofSet (fl.fold (CharSet.singleton c))

/-- Any character, apart from those that end a line unless the flags take them in. -/
def dot (fl : Flags) : Except Error Node := do
  let lineEnds := if fl.crlf then [(10, 10), (13, 13)] else [(10, 10)]
  return .one (← fl.complement (if fl.dotAll then [] else lineEnds))

/-- The repetition that a sign asks for. -/
def uncounted? : Char → Option (Nat × Option Nat)
  | '*' => some (0, none)
  | '+' => some (1, none)
  | '?' => some (0, some 1)
  | _ => none

/-- Reads an item that is neither a group nor a class in brackets. -/
def primitive (fl : Flags) (c : Char) (r : Text) : Except Error (Node × Text) :=
  match c with
  | '.' => (dot fl).map (·, r)
  | '^' => .ok (.look (if fl.multiLine then .lineStart fl.crlf else .textStart), r)
  | '$' => .ok (.look (if fl.multiLine then .lineEnd fl.crlf else .textEnd), r)
  | '\\' => (escape fl r).map fun (e, rest) =>
    match e with
    | .literal c => (literal fl c, rest)
    | .set s => (Node.ofSet s, rest)
    | .look l => (.look l, rest)
  | c => .ok (literal fl c, r)

mutual
/-- Reads branches up to a closing parenthesis or the end; `done` holds those read so far, the
latest first. Flags set in one branch hold in the branches after it. -/
def branches (fuel room : Nat) (fl : Flags) (groups : Groups) (done : List Item) (cs : Text) :
    Except Error (Item × Groups × Text) :=
  match fuel with
  | 0 => .error .nesting
  | fuel + 1 => do
    if room = 0 then throw .nesting
    let (branch, fl, groups, rest) ← items fuel room fl groups [] cs
    match rest with
    | '|' :: r => branches fuel room fl groups (branch :: done) r
    | _ => return (Item.choice (branch :: done).reverse, groups, rest)

/-- Reads the items of one branch; `done` holds those read so far, the latest first. -/
def items (fuel room : Nat) (fl : Flags) (groups : Groups) (done : List Item) (cs : Text) :
    Except Error (Item × Flags × Groups × Text) :=
  match fuel with
  | 0 => .error .nesting
  | fuel + 1 =>
    match skip fl cs with
    | [] => .ok (Item.sequence done.reverse, fl, groups, [])
    | c :: r =>
      if c = '|' ∨ c = ')' then .ok (Item.sequence done.reverse, fl, groups, c :: r)
      else if c = '(' then do
        let (head, groups', rest) ← opening fl groups r
        match head with
        | .flags fl' => items fuel room fl' groups (⟨.empty, 0, true⟩ :: done) rest
        | .plain fl' =>
          let (body, groups', rest) ← branches fuel (room - 1) fl' groups [] rest
          match rest with
          | ')' :: rest =>
            items fuel room fl groups' (⟨body.node, body.depth + 1, false⟩ :: done) rest
          | _ => .error .unclosedGroup
        | .capture name =>
          let (body, groups'', rest) ← branches fuel (room - 1) fl groups' [] rest
          match rest with
          | ')' :: rest =>
            let group := Node.group groups'.count name body.node
            items fuel room fl groups'' (⟨group, body.depth + 1, false⟩ :: done) rest
          | _ => .error .unclosedGroup
      else if c = '[' then do
        let (nested, rest) ← bracketed fuel maxDepth fl r
        items fuel room fl groups (⟨Node.ofSet nested.set, nested.depth, false⟩ :: done) rest
      else if c = '{' then do
        let (min, max, rest) ← bounds fl r
        let (greedy, rest) := greed fl (skip fl rest)
        let done ← repeatLast done min max greedy
        items fuel room fl groups done rest
      else
        match uncounted? c with
        | some (min, max) => do
          let (greedy, rest) := greed fl r
          let done ← repeatLast done min max greedy
          items fuel room fl groups done rest
        | none => do
          let (a, rest) ← primitive fl c r
          items fuel room fl groups (⟨a, 0, false⟩ :: done) rest
end

/-- Reads a whole pattern. -/
def node (cs : Text) : Except Error Node := do
  let (a, _, rest) ← branches (2 * cs.length + 2) (maxDepth + 1) {} {} [] cs
  if !rest.isEmpty then .error .unopenedGroup
  else if maxDepth < a.depth then .error .nesting
  else if !Weight.fits a.node then .error .weight
  else return a.node

end SourceMend.Pattern.Parser
