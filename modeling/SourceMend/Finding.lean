import SourceMend.Severity
import SourceMend.Text.Basic

/-! Findings: places in a file where a pattern is still present. -/
namespace SourceMend

/-- Why a pattern is still present: a rule that should have removed it did not, or no rule may
touch it. -/
inductive FindingClass where
  | fixFailed
  | residual
  deriving DecidableEq, Repr, Inhabited

namespace FindingClass

def name : FindingClass → String
  | .fixFailed => "fix_failed"
  | .residual => "residual"

def ofName? : String → Option FindingClass
  | "fix_failed" => some .fixFailed
  | "residual" => some .residual
  | _ => none

end FindingClass

/-- A line and a column, both counted from one, the column in characters. -/
structure Location where
  line : UInt64
  col : UInt64
  deriving DecidableEq, Repr, Inhabited

namespace Location

/-- The place behind the text `before`. -/
def after (before : Text) : Location where
  line := (before.count '\n' + 1).toUInt64
  col := ((before.reverse.takeWhile (· ≠ '\n')).length + 1).toUInt64

def precedes (a b : Location) : Bool := a.line < b.line || (a.line = b.line && a.col < b.col)

end Location

structure Finding where
  path : String
  ruleId : String
  category : String
  kind : FindingClass
  severity : Severity
  location : Location
  /-- The start of the offending text. -/
  excerpt : String
  message : Option String := none
  deriving DecidableEq, Repr, Inhabited

namespace Finding

def isFixFailed (f : Finding) : Bool := f.kind = .fixFailed

/-- A name that stays the same over reruns. -/
def fingerprint (f : Finding) : String :=
  s!"{f.ruleId}/{f.path}:{f.location.line.toNat}:{f.location.col.toNat}"

/-- By place, then by rule. -/
def notAfter (a b : Finding) : Bool :=
  if a.location = b.location then a.ruleId ≤ b.ruleId else a.location.precedes b.location

end Finding
end SourceMend
