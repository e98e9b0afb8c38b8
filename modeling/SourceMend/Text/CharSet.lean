import SourceMend.Text.Basic

/-!
Sets of characters as sorted lists of ranges of code points. `ofRanges` brings any list of ranges
into that form, and `contains` may stop at the first range above the character. The code points
of surrogates are no characters, so the end of a range steps over them.
-/
namespace SourceMend

/-- Disjoint ranges of code points, both ends included, in rising order. -/
abbrev CharSet := List (Nat × Nat)

namespace CharSet

def maxCode : Nat := 0x10FFFF

def containsCode : CharSet → Nat → Bool
  | [], _ => false
  | (lo, hi) :: rest, n => if n < lo then false else n ≤ hi || containsCode rest n

def contains (s : CharSet) (c : Char) : Bool := s.containsCode c.toNat

/-- Adds a range in front of a list of ranges, joined with the first one if they touch. -/
def joinFirst (range : Nat × Nat) : CharSet → CharSet
  | (lo, hi) :: rest =>
    if lo ≤ range.2 + 1 then (range.1, max range.2 hi) :: rest else range :: (lo, hi) :: rest
  | [] => [range]

/-- Joins neighbours in a list of ranges that is sorted by lower end. -/
def joinSorted (ranges : List (Nat × Nat)) : CharSet := ranges.foldr joinFirst []

/-- Puts a range into a list in front of the first one that does not start before it; `rest`
puts the ranges behind it into what is left. -/
def insertRange (range : Nat × Nat) (rest : List (Nat × Nat) → List (Nat × Nat)) :
    List (Nat × Nat) → List (Nat × Nat)
  | [] => range :: rest []
  | other :: others =>
    if range.1 ≤ other.1 then range :: rest (other :: others)
    else other :: insertRange range rest others

/-- Merges two lists of ranges that are sorted by lower end. -/
def merge (a b : List (Nat × Nat)) : List (Nat × Nat) := a.foldr insertRange id b

def ofRanges (ranges : List (Nat × Nat)) : CharSet :=
  joinSorted (ranges.foldr (fun range sorted => merge [range] sorted) [])

def singleton (c : Char) : CharSet := [(c.toNat, c.toNat)]

def union (a b : CharSet) : CharSet := joinSorted (merge a b)

/-- The code of the character before. -/
def codeBefore (n : Nat) : Nat := if n = 0xE000 then 0xD7FF else n - 1

/-- The code of the character after. -/
def codeAfter (n : Nat) : Nat := if n = 0xD7FF then 0xE000 else n + 1

/-- What lies between the ranges from `lo` on. Between ranges that only the surrogates divide
lies nothing, and the ends come in falling order. -/
def gaps : Nat → CharSet → List (Nat × Nat)
  | lo, [] => if lo ≤ maxCode then [(lo, maxCode)] else []
  | lo, (a, b) :: rest =>
    if 0 < a then (lo, codeBefore a) :: gaps (codeAfter b) rest else gaps (codeAfter b) rest

def complement (s : CharSet) : CharSet := (gaps 0 s).map fun (a, b) => (min a b, max a b)

def inter : CharSet → CharSet → CharSet
  | [], _ => []
  | _, [] => []
  | (a, b) :: s, (c, d) :: t =>
    let rest := if b < d then inter s ((c, d) :: t) else inter ((a, b) :: s) t
    if max a c ≤ min b d then (max a c, min b d) :: rest else rest
termination_by s t => s.length + t.length

def diff (a b : CharSet) : CharSet := inter a (gaps 0 b)

def symmDiff (a b : CharSet) : CharSet := diff (union a b) (inter a b)

def any : CharSet := [(0, maxCode)]

end CharSet
end SourceMend
