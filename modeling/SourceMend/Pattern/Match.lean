import SourceMend.Pattern.Cursor
import SourceMend.Pattern.Program

/-!
Matching. At each place the ways through the program are tried in order of preference, and an
instruction that was passed at the same place before is not passed again, so a repetition of
something empty ends. The first way that reaches the end is the preferred match.

The places are visited from right to left. How a match goes on behind a character is then known
from the place behind it, and one visit of each place gives the preferred matches at all of them.
-/
namespace SourceMend.Pattern

/-- The rest of a match: where it ends, and where its groups start and stop. -/
structure Trail where
  stop : Cursor
  starts : List (Nat × Cursor) := []
  stops : List (Nat × Cursor) := []
  deriving Repr, Inhabited

namespace Trail

/-- Notes a place for a group, unless a later iteration has noted one. -/
def note (i : Nat) (k : Cursor) (marks : List (Nat × Cursor)) : List (Nat × Cursor) :=
  if (marks.lookup i).isSome then marks else (i, k) :: marks

def opened (t : Trail) (i : Nat) (k : Cursor) : Trail := { t with starts := note i k t.starts }

def closed (t : Trail) (i : Nat) (k : Cursor) : Trail := { t with stops := note i k t.stops }

end Trail

/-- The preferred way on by address, for the addresses where a place can be reached. -/
abbrev Table := Array (Option Trail)

/-- What is known at a place: nothing of an instruction that was not passed yet, and no way on
from one that is being passed. -/
abbrev Known := Array (Option (Option Trail))

/-- The preferred way on from one instruction at the place `k`; `later` is the table of the place
behind, and `go` gives the ways on from other addresses at the same place. -/
def Instr.follow (i : Instr) (k : Cursor) (later : Table)
    (go : Nat → Known → Option Trail × Known) (known : Known) : Option Trail × Known :=
  match i with
  | .accept => (some { stop := k }, known)
  | .char set next _ => (if k.next.any set.contains then later.getD next none else none, known)
  | .look l next => if l.holds k then go next known else (none, known)
  | .fork first second =>
    match go first known with
    | (some way, known) => (some way, known)
    | (none, known) => go second known
  | .opening i next =>
    let (way, known) := go next known
    (way.map (·.opened i k), known)
  | .closing i next =>
    let (way, known) := go next known
    (way.map (·.closed i k), known)

/-- The preferred way on from an address at the place `k`. A way passes no instruction twice, so
the number of instructions is enough fuel. -/
def explore (code : Code) (k : Cursor) (later : Table) :
    Nat → Nat → Known → Option Trail × Known
  | 0, _, known => (none, known)
  | fuel + 1, address, known =>
    match known.getD address (some none) with
    | some way => (way, known)
    | none =>
      let (way, known) := (code.getD address .accept).follow k later (explore code k later fuel)
        (known.setIfInBounds address (some none))
      (way, known.setIfInBounds address (some way))

namespace Program

def unknown (p : Program) : Known := Array.replicate p.code.size none

def noTable (p : Program) : Table := Array.replicate p.code.size none

/-- The table of the place `k` with `left` bytes behind it, from that of the next place. -/
def table (p : Program) (k : Cursor) (left : Nat) (later : Table) : Table :=
  let reachable := p.arrivals.filter (·.need ≤ left)
  (reachable.foldl (fun (table, known) target =>
    let (way, known) := explore p.code k later p.code.size target.address known
    (table.setIfInBounds target.address way, if p.revisits then p.unknown else known))
    (p.noTable, p.unknown)).1

end Program

/-- A match: where it starts and ends, and where the groups that took part start and stop. -/
structure Match where
  start : Cursor
  stop : Cursor
  starts : List (Nat × Cursor)
  stops : List (Nat × Cursor)
  deriving Repr, Inhabited

namespace Match

def text (m : Match) : Text := m.start.upTo m.stop

def isEmpty (m : Match) : Bool := m.start.pos = m.stop.pos

/-- Where group `i` starts and its text, if the group took part. -/
def group? (m : Match) (i : Nat) : Option (Nat × Text) :=
  if i = 0 then some (m.start.pos, m.text)
  else
    match m.starts.lookup i, m.stops.lookup i with
    | some a, some b => some (a.pos, a.upTo b)
    | _, _ => none

end Match

/-- A place of a text with the preferred match that starts there. -/
structure Place where
  cursor : Cursor
  found : Option Match
  deriving Repr, Inhabited

/-- The places visited so far: the bytes from the last one on, its table, and all of them. -/
structure Visit where
  left : Nat := 0
  table : Table
  places : List Place := []

/-- Visits the place before. -/
def Visit.extend (p : Program) (k : Cursor) (v : Visit) : Visit :=
  let left := (k.next.map Char.utf8Size).getD 0 + v.left
  let table := p.table k left v.table
  let found := (table.getD p.entry none).map fun t => ⟨k, t.stop, t.starts, t.stops⟩
  { left, table, places := ⟨k, found⟩ :: v.places }

/-- The places from `k` on. -/
def Program.survey (p : Program) (k : Cursor) : List Place :=
  (k.places.foldr (Visit.extend p) { table := p.noTable }).places

end SourceMend.Pattern
