import SourceMend.Json.Basic

/-!
Taking typed values out of JSON. A record is an object, whose other members do not matter, or an
array with the values of the fields in order. A field must not be there twice; one that is missing
may have a default. An alternative is a string, or an object with that one member and nothing in it.
-/
namespace SourceMend.Json

/-- What a record holds under each name. -/
structure Fields where
  named : String → List Json

namespace Fields

/-- Opens a record with the given fields. -/
def of? (names : List String) (v : Json) : Option Fields :=
  match v with
  | .object _ => some ⟨v.named⟩
  | .array vs =>
    if vs.length ≤ names.length then some ⟨fun name => ((names.zip vs).lookup name).toList⟩
    else none
  | _ => none

/-- A field that must be there. -/
def required (f : Fields) (name : String) (read : Json → Option α) : Option α :=
  match f.named name with
  | [v] => read v
  | _ => none

/-- A field with a default. -/
def withDefault (f : Fields) (name : String) (dflt : α) (read : Json → Option α) : Option α :=
  match f.named name with
  | [] => some dflt
  | [v] => read v
  | _ => none

/-- A field that may be missing or null. -/
def optional (f : Fields) (name : String) (read : Json → Option α) : Option (Option α) :=
  match f.named name with
  | [] | [.null] => some none
  | [v] => (read v).map some
  | _ => none

end Fields

def asString : Json → Option String
  | .string s => some s
  | _ => none

def asBool : Json → Option Bool
  | .bool b => some b
  | _ => none

def asUInt32 : Json → Option UInt32
  | .integer n => if 0 ≤ n ∧ n.toNat < UInt32.size then some n.toNat.toUInt32 else none
  | _ => none

def asUInt64 : Json → Option UInt64
  | .integer n => if 0 ≤ n ∧ n.toNat < UInt64.size then some n.toNat.toUInt64 else none
  | _ => none

def asList (read : Json → Option α) : Json → Option (List α)
  | .array vs => vs.mapM read
  | _ => none

/-- The members of an object, the values read one by one. -/
def asMembers (read : Json → Option α) : Json → Option (List (String × α))
  | .object members => members.mapM fun (key, v) => (read v).map (key, ·)
  | _ => none

/-- An alternative with the names that `ofName?` knows. -/
def asName (ofName? : String → Option α) : Json → Option α
  | .string s => ofName? s
  | .object [(s, .null)] => ofName? s
  | _ => none

end SourceMend.Json
