import SourceMend.Text.Basic

/-!
JSON values. Integers are kept exact; a number with a fraction, an exponent or a negative zero is
kept as it was written. An object keeps its members in order.
-/
namespace SourceMend

inductive Json where
  | null
  | bool (b : Bool)
  | integer (n : Int)
  | decimal (written : String)
  | string (s : String)
  | array (items : List Json)
  | object (members : List (String × Json))
  deriving Repr, Inhabited

namespace Json

def nat (n : Nat) : Json := .integer n

def text (t : Text) : Json := .string (String.ofList t)

/-- The values of all members with this name. -/
def named (j : Json) (key : String) : List Json :=
  match j with
  | .object members => (members.filter (·.1 = key)).map (·.2)
  | _ => []

end Json
end SourceMend
