import SourceMend.Json.Fields
import SourceMend.Proofs.Json.RoundTrip
import SourceMend.Report.Encode

/-!
Fields read back from the members that were written for them. Members are put side by side when a
record is written, and a name that is written once is read once.
-/
namespace SourceMend.Json

/-! Members -/

@[simp] theorem named_nil (key : String) : (Json.object []).named key = [] := rfl

@[simp] theorem named_append (ms ms' : List (String × Json)) (key : String) :
    (Json.object (ms ++ ms')).named key =
      (Json.object ms).named key ++ (Json.object ms').named key := by
  simp [named]

@[simp] theorem named_cons (m : String × Json) (ms : List (String × Json)) (key : String) :
    (Json.object (m :: ms)).named key =
      (if m.1 = key then [m.2] else []) ++ (Json.object ms).named key := by
  by_cases h : m.1 = key <;> simp [named, h]

@[simp] theorem named_member? (key other : String) (j : Option Json) :
    (Json.object (member? key j)).named other = if key = other then j.toList else [] := by
  cases j with
  | none => simp [member?]
  | some j => simp [member?]

@[simp] theorem of?_object (names : List String) (ms : List (String × Json)) :
    Fields.of? names (.object ms) = some ⟨(Json.object ms).named⟩ := rfl

/-! Values -/

@[simp] theorem asString_string (s : String) : asString (.string s) = some s := rfl

@[simp] theorem asBool_bool (b : Bool) : asBool (.bool b) = some b := rfl

@[simp] theorem asUInt32_uint32 (n : UInt32) : asUInt32 (.uint32 n) = some n := by
  have hlt : n.toNat < UInt32.size := n.toNat_lt
  simp [asUInt32, Json.uint32, nat, hlt]

@[simp] theorem asUInt64_uint64 (n : UInt64) : asUInt64 (.uint64 n) = some n := by
  have hlt : n.toNat < UInt64.size := n.toNat_lt
  simp [asUInt64, Json.uint64, nat, hlt]

/-- Lists are read item by item. -/
theorem mapM_map {α β : Type} {read : β → Option α} {write : α → β}
    (h : ∀ a, read (write a) = some a) (as : List α) : (as.map write).mapM read = some as := by
  induction as with
  | nil => rfl
  | cons a as ih => simp [h, ih]

theorem asList_array {α : Type} {read : Json → Option α} {write : α → Json}
    (h : ∀ a, read (write a) = some a) (as : List α) :
    asList read (.array (as.map write)) = some as :=
  mapM_map h as

@[simp] theorem asList_strings (ss : List String) :
    asList asString (.array (ss.map .string)) = some ss :=
  asList_array asString_string ss

/-- What a value that may be missing or null is read as. -/
def readOptional {α : Type} (read : Json → Option α) : List Json → Option (Option α)
  | [] | [.null] => some none
  | [j] => (read j).map some
  | _ => none

theorem optional_eq {α : Type} (f : Fields) (name : String) (read : Json → Option α) :
    f.optional name read = readOptional read (f.named name) := rfl

@[simp] theorem readOptional_string (s : Option String) :
    readOptional asString (s.map .string).toList = some s := by
  cases s <;> rfl

@[simp] theorem readOptional_uint64 (n : Option UInt64) :
    readOptional asUInt64 (n.map .uint64).toList = some n := by
  cases n with
  | none => rfl
  | some n => exact congrArg (Option.map some) (asUInt64_uint64 n)

/-! Numbers without a fraction -/

@[simp] theorem exact_bool (b : Bool) : Exact (.bool b) := .bool b

@[simp] theorem exact_string (s : String) : Exact (.string s) := .string s

@[simp] theorem exact_uint32 (n : UInt32) : Exact (.uint32 n) := .integer n.toNat

@[simp] theorem exact_uint64 (n : UInt64) : Exact (.uint64 n) := .integer n.toNat

theorem exact_array_map {α : Type} {write : α → Json} (h : ∀ a, Exact (write a)) (as : List α) :
    Exact (.array (as.map write)) :=
  .array (List.forall_mem_map.2 fun a _ => h a)

@[simp] theorem exact_strings (ss : List String) : Exact (.array (ss.map .string)) :=
  exact_array_map exact_string ss

/-- No member has a number with a fraction. -/
def AllExact (ms : List (String × Json)) : Prop := ∀ m ∈ ms, Exact m.2

@[simp] theorem exact_object_iff {ms : List (String × Json)} : Exact (.object ms) ↔ AllExact ms :=
  ⟨fun h => by cases h; assumption, .object⟩

@[simp] theorem allExact_nil : AllExact [] := List.forall_mem_nil _

@[simp] theorem allExact_cons {m : String × Json} {ms : List (String × Json)} :
    AllExact (m :: ms) ↔ Exact m.2 ∧ AllExact ms := List.forall_mem_cons

@[simp] theorem allExact_append {ms ms' : List (String × Json)} :
    AllExact (ms ++ ms') ↔ AllExact ms ∧ AllExact ms' := List.forall_mem_append

@[simp] theorem allExact_member? {α : Type} {write : α → Json} (key : String) (a : Option α) :
    AllExact (member? key (a.map write)) ↔ ∀ x ∈ a, Exact (write x) := by
  cases a <;> simp [member?]

end SourceMend.Json
