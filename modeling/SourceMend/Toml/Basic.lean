import SourceMend.Text.Basic

/-!
TOML values, as far as settings and rules need them: floats and dates are read but their value is
not kept.
-/
namespace SourceMend

inductive Toml where
  | string (s : String)
  | integer (n : Int)
  | boolean (b : Bool)
  /-- A float or a date. -/
  | other
  | array (items : List Toml)
  | table (entries : List (String × Toml))
  deriving Repr, Inhabited

end SourceMend
