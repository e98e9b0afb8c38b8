import SourceMend.Text.Basic

/-! The two source dialects, told apart by the file extension. -/
namespace SourceMend

inductive Dialect where
  | script
  /-- Script with embedded markup elements. -/
  | markup
  deriving DecidableEq, Repr, Inhabited

namespace Dialect

/-- What follows the last occurrence of `sep`, if there is one. -/
def afterLast (sep : Char) (text : Text) : Option Text :=
  if text.contains sep then some (text.reverse.takeWhile (· ≠ sep)).reverse else none

/-- Files ending in `.tsx` or `.jsx`, in any letter case, hold markup. -/
def ofPath (path : String) : Dialect :=
  match (afterLast '.' path.toList).map (·.map Char.toLower) with
  | some ext => if ext = "tsx".toList ∨ ext = "jsx".toList then .markup else .script
  | none => .script

end Dialect
end SourceMend
