import SourceMend.Pattern.Basic

/-! References to the groups of a pattern, by number or by name. -/
namespace SourceMend

inductive CaptureRef where
  | index (n : Nat)
  | name (s : String)
  deriving DecidableEq, Repr, Inhabited

namespace CaptureRef

def maxIndex : Nat := UInt64.size - 1

/-- Decimal digits, with or without a plus sign, are a number as long as it fits a word; anything
else is a name. -/
def parse (raw : Text) : CaptureRef :=
  let digits := if raw.head? = some '+' then raw.tail else raw
  let n := digits.foldl (fun n d => n * 10 + (d.toNat - 48)) 0
  if !digits.isEmpty && digits.all Char.isDigit && n ≤ maxIndex then .index n
  else .name (String.ofList raw)

def display : CaptureRef → String
  | .index n => String.ofList (Nat.toDigits 10 n)
  | .name s => s

/-- The number of the group, if the pattern has it. -/
def resolve? (ref : CaptureRef) (p : Pattern) : Option Nat :=
  match ref with
  | .index n => if n < p.groupNames.length then some n else none
  | .name s => p.groupNames.findIdx? (· = some s)

def existsIn (ref : CaptureRef) (p : Pattern) : Bool := (ref.resolve? p).isSome

/-- The text of the group in a match; `none` when the group took no part. -/
def text? (ref : CaptureRef) (p : Pattern) (m : Pattern.Match) : Option Text :=
  (ref.resolve? p).bind fun i => (m.group? i).map (·.2)

end CaptureRef
end SourceMend
