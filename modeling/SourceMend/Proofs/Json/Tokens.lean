import SourceMend.Json.Printer
import SourceMend.Json.Reader

/-!
The tokens of JSON read back. A string is written so that its end can be seen from the inside, and
an integer is read whole if no digit, fraction or exponent follows it.
-/
namespace SourceMend.Json

open Reader

/-! Strings -/

theorem hexValue_hexDigit : ∀ n < 16, hexValue (hexDigit n) = some n := by decide

/-- A control character comes back from its code. -/
theorem unescape_code {c : Char} (h : c.toNat < 32) (rest : Text) :
    unescape ('u' :: '0' :: '0' :: hexDigit (c.toNat / 16) :: hexDigit (c.toNat % 16) :: rest) =
      some (c, 5) := by
  have hhigh := hexValue_hexDigit (c.toNat / 16) (by omega)
  have hlow := hexValue_hexDigit (c.toNat % 16) (by omega)
  have hcode : hex4 ('0' :: '0' :: hexDigit (c.toNat / 16) :: hexDigit (c.toNat % 16) :: rest) =
      some c.toNat := by
    have hzero : hexValue '0' = some 0 := by decide
    have hsum : c.toNat / 16 * 16 + c.toNat % 16 = c.toNat := by omega
    simp [hex4, hhigh, hlow, hzero, hsum]
  have hsmall : ¬ (55296 ≤ c.toNat ∧ c.toNat < 56320) ∧ ¬ (56320 ≤ c.toNat ∧ c.toNat < 57344) := by
    omega
  simp [unescape, hcode, hsmall.1, hsmall.2]

/-- A character is read back from the way it is written inside a string. -/
theorem stringBody_escape (c : Char) (cs : Text) :
    stringBody (escape c ++ cs) = (stringBody cs).map fun (s, rest) => (c :: s, rest) := by
  unfold escape
  -- The seven characters with a letter of their own.
  iterate 7
    split
    · next h => rw [h, List.cons_append, stringBody]; rfl
  split
  · next h =>
    rw [List.cons_append, stringBody]
    simp only [List.cons_append, List.nil_append, unescape_code h]
    rfl
  · next hquote hback _ _ _ _ _ hcontrol =>
    rw [List.cons_append, stringBody, if_neg hquote, if_neg hback, if_neg hcontrol]
    rfl

theorem stringBody_flatMap (s rest : Text) :
    stringBody (s.flatMap escape ++ '"' :: rest) = some (s, rest) := by
  induction s with
  | nil => rw [List.flatMap_nil, List.nil_append, stringBody, if_pos rfl]
  | cons c s ih => rw [List.flatMap_cons, List.append_assoc, stringBody_escape, ih]; rfl

theorem quote_append (s tail : Text) :
    quote s ++ tail = '"' :: (s.flatMap escape ++ '"' :: tail) := by
  simp [quote]

/-! Integers -/

/-- What may follow an integer. -/
def Ends (tail : Text) : Prop :=
  ∀ c ∈ tail.head?, c.isDigit = false ∧ c ≠ '.' ∧ c ≠ 'e' ∧ c ≠ 'E'

theorem ends_nil : Ends [] := fun _ hc => nomatch hc

theorem ends_cons {c : Char} (h : c.isDigit = false ∧ c ≠ '.' ∧ c ≠ 'e' ∧ c ≠ 'E') (cs : Text) :
    Ends (c :: cs) := by
  intro x hx
  obtain rfl : c = x := Option.some.inj hx
  exact h

theorem digitsValue_toDigits (n : Nat) : digitsValue (Nat.toDigits 10 n) = n := by
  have hvalue (ds : Text) (init : Nat) :
      ds.foldl (fun n d => n * 10 + (d.toNat - 48)) init = Nat.ofDigitChars 10 ds init := by
    unfold Nat.ofDigitChars
    congr
    funext n d
    rw [Nat.mul_comm]
    rfl
  unfold digitsValue
  rw [hvalue, Nat.ofDigitChars_toDigits (by decide) (by decide)]

/-- No digits but those of zero start with a zero. -/
theorem head?_toDigits_ne {n : Nat} (h : 0 < n) : (Nat.toDigits 10 n).head? ≠ some '0' := by
  induction n using Nat.strongRecOn with
  | ind n ih =>
    by_cases hsmall : n < 10
    · have hdigit : ∀ n < 10, 0 < n → n.digitChar ≠ '0' := by decide
      rw [Nat.toDigits_of_lt_base hsmall]
      simpa using hdigit n hsmall h
    · have hfront := ih (n / 10) (by omega) (by omega)
      obtain ⟨c, cs, hcons⟩ := List.exists_cons_of_ne_nil
        (Nat.toDigits_ne_nil (n := n / 10) (b := 10))
      rw [Nat.toDigits_of_base_le (by decide) (by omega), hcons]
      rwa [hcons] at hfront

theorem someDigits_append {ds tail : Text} (hne : ds ≠ []) (hds : ∀ c ∈ ds, c.isDigit = true)
    (htail : Ends tail) : someDigits (ds ++ tail) = some (ds, tail) := by
  have hstop : tail.takeWhile Char.isDigit = [] ∧ tail.dropWhile Char.isDigit = tail := by
    cases tail with
    | nil => exact ⟨rfl, rfl⟩
    | cons c tail => simp [(htail c rfl).1]
  unfold someDigits
  rw [List.takeWhile_append_of_pos hds, List.dropWhile_append_of_pos hds, hstop.1, hstop.2]
  simp [hne]

theorem fraction_of_ends {tail : Text} (h : Ends tail) : fraction tail = some ([], tail) := by
  unfold fraction
  split
  · next rest => exact absurd rfl (h '.' rfl).2.1
  · rfl

theorem exponent_of_ends {tail : Text} (h : Ends tail) : exponent tail = some ([], tail) := by
  unfold exponent
  split
  · next c rest => rw [if_neg (not_or.2 (h c rfl).2.2)]
  · rfl

/-- The digits of a number, behind its sign. -/
theorem number_of_digits (negative : Bool) (n : Nat) (hn : negative = true → 0 < n) {tail : Text}
    (h : Ends tail) :
    number ((if negative then ['-'] else []) ++ (Nat.toDigits 10 n ++ tail)) =
      some (.integer (if negative then -n else n), tail) := by
  have hdigits := someDigits_append (Nat.toDigits_ne_nil (n := n) (b := 10))
    (fun c hc => Nat.isDigit_of_mem_toDigits (by decide) (by decide) hc) h
  have hlead : ¬ (1 < (Nat.toDigits 10 n).length ∧ (Nat.toDigits 10 n).head? = some '0') := by
    rintro ⟨hlong, hzero⟩
    by_cases hn : 0 < n
    · exact head?_toDigits_ne hn hzero
    · obtain rfl : n = 0 := by omega
      simp at hlong
  cases negative with
  | true =>
    have hne : Nat.toDigits 10 n ≠ ['0'] := by
      intro hzero
      exact head?_toDigits_ne (hn rfl) (by rw [hzero]; rfl)
    simp [number, hdigits, hlead, fraction_of_ends h, exponent_of_ends h, hne, digitsValue_toDigits]
  | false =>
    have hsign : (Nat.toDigits 10 n).head? ≠ some '-' := by
      intro heq
      have hdigit := Nat.isDigit_of_mem_toDigits (by decide) (by decide) (List.mem_of_head? heq)
      contradiction
    simp [number, hsign, hdigits, hlead, fraction_of_ends h, exponent_of_ends h,
      digitsValue_toDigits]

theorem number_writeInt (n : Int) {tail : Text} (h : Ends tail) :
    number (writeInt n ++ tail) = some (.integer n, tail) := by
  cases n with
  | ofNat n => exact number_of_digits false n (by simp) h
  | negSucc n => exact number_of_digits true (n + 1) (by simp) h

end SourceMend.Json
