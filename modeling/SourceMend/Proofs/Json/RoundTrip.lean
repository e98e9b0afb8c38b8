import SourceMend.Proofs.Json.Tokens
import Mathlib.Data.List.DropRight

/-!
The indented form read back. Reading spends fuel on each value, item and member that it enters, and
each of them takes at least one character, so that twice the length of the text is enough.
-/
namespace SourceMend.Json

open Reader

/-- No number in the value has a fraction, an exponent or a negative zero. -/
inductive Exact : Json → Prop
  | null : Exact .null
  | bool (b : Bool) : Exact (.bool b)
  | integer (n : Int) : Exact (.integer n)
  | string (s : String) : Exact (.string s)
  | array {items : List Json} (items_exact : ∀ j ∈ items, Exact j) : Exact (.array items)
  | object {members : List (String × Json)} (members_exact : ∀ m ∈ members, Exact m.2) :
    Exact (.object members)

/-- The indented form of a value is read back from the front of any text that goes on with what may
follow an integer. -/
def ReadsBack (j : Json) : Prop :=
  ∀ (depth fuel : Nat) (tail : Text), Ends tail → 2 * (pretty depth j tail).length < fuel →
    value fuel (pretty depth j tail) = some (j, tail)

theorem skipBlank_lineBreak (depth : Nat) (cs : Text) :
    skipBlank (lineBreak depth ++ cs) = skipBlank cs := by
  unfold skipBlank lineBreak
  rw [List.dropWhile_append_of_pos]
  intro c hc
  rcases List.mem_cons.1 hc with rfl | hc
  · rfl
  · rw [List.eq_of_mem_replicate hc]
    rfl

theorem skipBlank_cons {c : Char} (h : c ≠ ' ' ∧ c ≠ '\t' ∧ c ≠ '\n' ∧ c ≠ '\r') (cs : Text) :
    skipBlank (c :: cs) = c :: cs := by
  simp [skipBlank, h]

theorem skipBlank_blank (cs : Text) : skipBlank (' ' :: cs) = skipBlank cs := rfl

theorem skipBlank_skipBlank (cs : Text) : skipBlank (skipBlank cs) = skipBlank cs :=
  List.dropWhile_idempotent _ cs

theorem value_congr {cs cs' : Text} (h : skipBlank cs = skipBlank cs') (fuel : Nat) :
    value fuel cs = value fuel cs' := by
  cases fuel with
  | zero => rfl
  | succ fuel => rw [value, value, h]

theorem length_lineBreak (depth : Nat) : (lineBreak depth).length = 2 * depth + 1 := by
  simp [lineBreak]

theorem ends_lineBreak (depth : Nat) (cs : Text) : Ends (lineBreak depth ++ cs) :=
  ends_cons (by decide) _

theorem ends_prettyItems (depth : Nat) (items : List Json) {tail : Text} (h : Ends tail) :
    Ends (prettyItems depth items false tail) := by
  cases items with
  | nil => exact h
  | cons j js => exact ends_cons (by decide) _

theorem ends_prettyMembers (depth : Nat) (members : List (String × Json)) {tail : Text}
    (h : Ends tail) : Ends (prettyMembers depth members false tail) := by
  cases members with
  | nil => exact h
  | cons m ms => exact ends_cons (by decide) _

mutual
theorem pretty_append (depth : Nat) (j : Json) (tail more : Text) :
    pretty depth j (tail ++ more) = pretty depth j tail ++ more := by
  match j with
  | .null | .bool _ | .integer _ | .decimal _ | .string _ | .array [] | .object [] =>
    simp [pretty]
  | .array (j :: js) =>
    rw [pretty, pretty, List.cons_append, ← prettyItems_append, List.append_assoc]
    rfl
  | .object (m :: ms) =>
    rw [pretty, pretty, List.cons_append, ← prettyMembers_append, List.append_assoc]
    rfl

theorem prettyItems_append (depth : Nat) (items : List Json) (first : Bool) (tail more : Text) :
    prettyItems depth items first (tail ++ more) = prettyItems depth items first tail ++ more := by
  match items with
  | [] => rfl
  | j :: js =>
    have hrest := prettyItems_append depth js false tail more
    cases first <;> simp [prettyItems, hrest, pretty_append]

theorem prettyMembers_append (depth : Nat) (members : List (String × Json)) (first : Bool)
    (tail more : Text) :
    prettyMembers depth members first (tail ++ more) =
      prettyMembers depth members first tail ++ more := by
  match members with
  | [] => rfl
  | (key, j) :: ms =>
    have hrest := prettyMembers_append depth ms false tail more
    cases first <;> simp [prettyMembers, hrest, pretty_append]
end

theorem length_le_pretty (depth : Nat) (j : Json) (tail : Text) :
    tail.length ≤ (pretty depth j tail).length := by
  rw [← List.nil_append tail, pretty_append, List.length_append]
  simp

theorem exists_fuel {m fuel : Nat} (h : m < fuel) : ∃ fuel', fuel = fuel' + 1 :=
  Nat.exists_eq_succ_of_ne_zero (Nat.ne_of_gt (Nat.zero_lt_of_lt h))

/-- A text that starts with a digit or a sign is read as a number. -/
theorem value_of_digit {c : Char} (h : c.isDigit = true ∨ c = '-') (fuel : Nat) (cs : Text) :
    value (fuel + 1) (c :: cs) = number (c :: cs) := by
  have hne {x : Char} (hx : x.isDigit = false ∧ x ≠ '-') : c ≠ x := by
    rintro rfl
    simp [hx] at h
  rw [value, skipBlank_cons ⟨hne (by decide), hne (by decide), hne (by decide), hne (by decide)⟩]
  split
  -- The first characters of the other values.
  iterate 6
    · next heq => exact absurd (List.cons.inj heq).1 (hne (by decide))
  · rfl

theorem readsBack_integer (n : Int) : ReadsBack (.integer n) := by
  intro depth fuel tail htail hfuel
  obtain ⟨fuel, rfl⟩ := exists_fuel hfuel
  obtain ⟨c, cs, hcons, hc⟩ : ∃ c cs, writeInt n = c :: cs ∧ (c.isDigit = true ∨ c = '-') := by
    cases n with
    | ofNat n =>
      obtain ⟨c, cs, hcons⟩ := List.exists_cons_of_ne_nil (Nat.toDigits_ne_nil (n := n) (b := 10))
      refine ⟨c, cs, hcons, .inl ?_⟩
      refine Nat.isDigit_of_mem_toDigits (n := n) (b := 10) (by decide) (by decide) ?_
      simp [hcons]
    | negSucc n => exact ⟨'-', _, rfl, .inr rfl⟩
  rw [pretty, hcons, List.cons_append, value_of_digit hc, ← List.cons_append, ← hcons,
    number_writeInt n htail]

theorem readsBack_string (s : String) : ReadsBack (.string s) := by
  intro depth fuel tail htail hfuel
  obtain ⟨fuel, rfl⟩ := exists_fuel hfuel
  rw [pretty, quote_append, value, skipBlank_cons (by decide)]
  simp [stringBody_flatMap]

/-! Arrays -/

theorem items_congr {cs cs' : Text} (h : skipBlank cs = skipBlank cs') (fuel : Nat) :
    Reader.items fuel cs = Reader.items fuel cs' := by
  cases fuel with
  | zero => rfl
  | succ fuel => rw [Reader.items, Reader.items, value_congr h]

/-- No item starts with the closing bracket. -/
theorem skipBlank_ne_of_items {fuel : Nat} {cs rest : Text} {js : List Json}
    (h : Reader.items fuel cs = some (js, rest)) (cs' : Text) : skipBlank cs ≠ ']' :: cs' := by
  intro hcs
  have hvalue (fuel : Nat) : value fuel cs = none := by
    cases fuel with
    | zero => rfl
    | succ fuel => simp [value, hcs, number, someDigits]
  cases fuel with
  | zero => cases h
  | succ fuel =>
    rw [Reader.items, hvalue] at h
    cases h

theorem value_of_items {fuel : Nat} {cs rest : Text} {js : List Json}
    (h : Reader.items fuel cs = some (js, rest)) :
    value (fuel + 1) ('[' :: cs) = some (.array js, rest) := by
  rw [value, skipBlank_cons (by decide)]
  simp only
  split
  · next heq => exact absurd heq (skipBlank_ne_of_items h _)
  · rw [items_congr (skipBlank_skipBlank cs), h]
    rfl

/-- Items are read back one after the other, up to the closing bracket. -/
theorem items_prettyItems {depth : Nat} (outer : Nat) {items : List Json} (hne : items ≠ [])
    (h : ∀ j ∈ items, ReadsBack j) (tail : Text) {fuel : Nat}
    (hfuel : 2 * (prettyItems depth items true (lineBreak outer ++ ']' :: tail)).length < fuel) :
    Reader.items fuel (prettyItems depth items true (lineBreak outer ++ ']' :: tail)) =
      some (items, tail) := by
  induction items generalizing fuel with
  | nil => contradiction
  | cons j js ih =>
    obtain ⟨hj, hjs⟩ := List.forall_mem_cons.1 h
    obtain ⟨fuel, rfl⟩ := exists_fuel hfuel
    have hlen := length_le_pretty depth j
      (prettyItems depth js false (lineBreak outer ++ ']' :: tail))
    simp only [prettyItems, ↓reduceIte, List.length_append, length_lineBreak] at hfuel ⊢
    rw [Reader.items, value_congr (skipBlank_lineBreak depth _),
      hj depth fuel _ (ends_prettyItems depth js (ends_lineBreak outer _)) (by omega)]
    cases js with
    | nil => simp [prettyItems, skipBlank_lineBreak, skipBlank_cons]
    | cons k ks =>
      have hcomma : prettyItems depth (k :: ks) false (lineBreak outer ++ ']' :: tail) =
          ',' :: prettyItems depth (k :: ks) true (lineBreak outer ++ ']' :: tail) := rfl
      have hrest : 2 * (prettyItems depth (k :: ks) true (lineBreak outer ++ ']' :: tail)).length <
          fuel := by
        have hlength := congrArg List.length hcomma
        rw [List.length_cons] at hlength
        omega
      rw [hcomma]
      simp only [skipBlank_cons (c := ',') (by decide)]
      rw [ih (List.cons_ne_nil k ks) hjs hrest]
      rfl

/-! Objects -/

theorem members_congr {cs cs' : Text} (h : skipBlank cs = skipBlank cs') (fuel : Nat) :
    Reader.members fuel cs = Reader.members fuel cs' := by
  cases fuel with
  | zero => rfl
  | succ fuel => rw [Reader.members, Reader.members, h]

theorem value_of_members {fuel : Nat} {cs rest : Text} {ms : List (String × Json)}
    (h : Reader.members fuel cs = some (ms, rest)) :
    value (fuel + 1) ('{' :: cs) = some (.object ms, rest) := by
  rw [value, skipBlank_cons (by decide)]
  simp only
  split
  · next heq =>
    cases fuel with
    | zero => cases h
    | succ fuel =>
      rw [Reader.members, heq] at h
      cases h
  · rw [members_congr (skipBlank_skipBlank cs), h]
    rfl

/-- Members are read back one after the other, up to the closing brace. -/
theorem members_prettyMembers {depth : Nat} (outer : Nat) {members : List (String × Json)}
    (hne : members ≠ []) (h : ∀ m ∈ members, ReadsBack m.2) (tail : Text) {fuel : Nat}
    (hfuel :
      2 * (prettyMembers depth members true (lineBreak outer ++ '}' :: tail)).length < fuel) :
    Reader.members fuel (prettyMembers depth members true (lineBreak outer ++ '}' :: tail)) =
      some (members, tail) := by
  induction members generalizing fuel with
  | nil => contradiction
  | cons m ms ih =>
    obtain ⟨key, j⟩ := m
    obtain ⟨hj, hms⟩ : ReadsBack j ∧ ∀ m ∈ ms, ReadsBack m.2 := List.forall_mem_cons.1 h
    obtain ⟨fuel, rfl⟩ := exists_fuel hfuel
    have hlen := length_le_pretty depth j
      (prettyMembers depth ms false (lineBreak outer ++ '}' :: tail))
    simp only [prettyMembers, ↓reduceIte, List.length_append, length_lineBreak, List.length_cons,
      List.append_assoc] at hfuel ⊢
    rw [Reader.members, skipBlank_lineBreak, quote_append, skipBlank_cons (by decide)]
    simp only [stringBody_flatMap, skipBlank_cons (c := ':') (by decide)]
    have hends := ends_prettyMembers depth ms (ends_lineBreak outer ('}' :: tail))
    rw [value_congr (skipBlank_blank _), hj depth fuel _ hends (by omega)]
    cases ms with
    | nil => simp [prettyMembers, skipBlank_lineBreak, skipBlank_cons]
    | cons m ms =>
      have hcomma : prettyMembers depth (m :: ms) false (lineBreak outer ++ '}' :: tail) =
          ',' :: prettyMembers depth (m :: ms) true (lineBreak outer ++ '}' :: tail) := rfl
      have hrest :
          2 * (prettyMembers depth (m :: ms) true (lineBreak outer ++ '}' :: tail)).length <
            fuel := by
        have hlength := congrArg List.length hcomma
        rw [List.length_cons] at hlength
        omega
      rw [hcomma]
      simp only [skipBlank_cons (c := ',') (by decide)]
      rw [ih (List.cons_ne_nil m ms) hms hrest]
      simp

/-! Values -/

theorem Exact.readsBack {j : Json} (h : Exact j) : ReadsBack j := by
  induction h with
  | null =>
    intro depth fuel tail _ hfuel
    obtain ⟨fuel, rfl⟩ := exists_fuel hfuel
    rfl
  | bool b =>
    intro depth fuel tail _ hfuel
    obtain ⟨fuel, rfl⟩ := exists_fuel hfuel
    cases b <;> rfl
  | integer n => exact readsBack_integer n
  | string s => exact readsBack_string s
  | @array items _ ih =>
    intro depth fuel tail htail hfuel
    obtain ⟨fuel, rfl⟩ := exists_fuel hfuel
    cases items with
    | nil => rfl
    | cons j js =>
      rw [pretty] at hfuel ⊢
      refine value_of_items (items_prettyItems depth (List.cons_ne_nil j js) ih tail ?_)
      rw [List.length_cons] at hfuel
      omega
  | @object members _ ih =>
    intro depth fuel tail htail hfuel
    obtain ⟨fuel, rfl⟩ := exists_fuel hfuel
    cases members with
    | nil => rfl
    | cons m ms =>
      rw [pretty] at hfuel ⊢
      refine value_of_members (members_prettyMembers depth (List.cons_ne_nil m ms) ih tail ?_)
      rw [List.length_cons] at hfuel
      omega

/-- The indented form of a value is read back as the value, also with blanks behind it. -/
theorem parse?_toPrettyString {j : Json} (h : Exact j) {blanks : Text}
    (hblanks : skipBlank blanks = []) :
    parse? (j.toPrettyString.toList ++ blanks) = some j := by
  have hends : Ends blanks := by
    cases blanks with
    | nil => exact ends_nil
    | cons c cs =>
      have hc : ((c = ' ' ∨ c = '\t') ∨ c = '\n') ∨ c = '\r' := by
        simpa using List.dropWhile_eq_nil_iff.1 hblanks c List.mem_cons_self
      rcases hc with ((rfl | rfl) | rfl) | rfl <;> exact ends_cons (by decide) cs
  rw [toPrettyString, String.toList_ofList, ← pretty_append, List.nil_append, parse?,
    h.readsBack 0 _ blanks hends (by omega)]
  simp [hblanks]

end SourceMend.Json
