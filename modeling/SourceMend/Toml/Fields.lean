import SourceMend.Toml.Basic

/-!
Taking typed values out of TOML. A record is a table with none but the known keys, or an array
with the values of the fields in order; a field that is missing may have a default. An
alternative is a string, or a table with that one key and nothing below it.
-/
namespace SourceMend.Toml

/-- The fields of a record by name. -/
structure Fields where
  get? : String → Option Toml

namespace Fields

/-- Opens a record with the given fields. -/
def of? (names : List String) (v : Toml) : Option Fields :=
  match v with
  | .table es => if es.all (names.contains ·.1) then some ⟨fun name => es.lookup name⟩ else none
  | .array vs => some ⟨fun name => (names.zip vs).lookup name⟩
  | _ => none

/-- A field that must be there. -/
def required (f : Fields) (name : String) (read : Toml → Option α) : Option α :=
  (f.get? name).bind read

/-- A field that may be missing. -/
def optional (f : Fields) (name : String) (read : Toml → Option α) : Option (Option α) :=
  match f.get? name with
  | none => some none
  | some v => (read v).map some

/-- A field with a default. -/
def withDefault (f : Fields) (name : String) (dflt : α) (read : Toml → Option α) : Option α :=
  (f.optional name read).map (·.getD dflt)

end Fields

def asString : Toml → Option String
  | .string s => some s
  | _ => none

def asBool : Toml → Option Bool
  | .boolean b => some b
  | _ => none

def asUInt32 : Toml → Option UInt32
  | .integer n => if 0 ≤ n ∧ n.toNat < UInt32.size then some n.toNat.toUInt32 else none
  | _ => none

def asUInt64 : Toml → Option UInt64
  | .integer n => if 0 ≤ n ∧ n.toNat < UInt64.size then some n.toNat.toUInt64 else none
  | _ => none

def asList (read : Toml → Option α) : Toml → Option (List α)
  | .array vs => vs.mapM read
  | _ => none

/-- An alternative with the names that `ofName?` knows. -/
def asName (ofName? : String → Option α) : Toml → Option α
  | .string s => ofName? s
  | .table [(s, .table [])] => ofName? s
  | .table [(s, .array [])] => ofName? s
  | _ => none

end SourceMend.Toml
