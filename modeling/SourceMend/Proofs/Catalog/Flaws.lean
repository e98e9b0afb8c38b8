import Mathlib.Tactic.Common
import SourceMend.Proofs.Rule.Rewriting

/-!
Flaws: the places of a text on which the built-in rules may still work. A flaw is told by the text
to its left alone, and most of that text does not matter: nothing before a closing bracket or the
end of a member is looked at. So an edit changes no flaw behind it, and it is enough to see that
each edit takes away more flaws than it makes.

The text on the left is given from its end, the nearest character first.
-/
namespace SourceMend.Catalog

/-- The characters between which an index signature lies. -/
def edges : List Char := ['[', ']', ';', ',', '{', '}']

/-- The characters that end a run of letters. -/
def breaks : List Char := edges ++ [' ', '\t', '\n', ':', '?', '<', '>', '|', '=', '(', ')']

def isEdge (c : Char) : Bool := edges.contains c

def isBreak (c : Char) : Bool := breaks.contains c

def isSpace (c : Char) : Bool := c = ' ' || c = '\t'

/-- What stands before a type, from its end. -/
def typeMarks : List Text := [[' ', ':'], ['<'], [' ', 's', 'a'], [' ', '|']]

/-- Whether the text ends with a type. -/
def typed (left : Text) : Bool :=
  left.head? = some '>' || typeMarks.any (·.isPrefixOf (left.dropWhile (!isBreak ·)))

/-- Whether the text ends with a name, or with the question mark behind one. -/
def named (left : Text) : Bool := left.head?.any fun c => !isBreak c || c = '?'

/-- The annotation that the rules put in and take back. -/
def anyType : Text := [':', ' ', 'a', 'n', 'y']

/-- Whether a pair of brackets behind the text is a flaw: it has no element type, or one that was
put behind a type. -/
def loose (left : Text) : Bool :=
  (named left && !typed left) || (anyType.reverse.isPrefixOf left && typed (left.drop 5))

/-- Whether a closing bracket behind the text ends an index signature. -/
def closesIndex (left : Text) : Bool :=
  (left.head?.any fun c => !isEdge c) && (left.dropWhile (!isEdge ·)).head? = some '[' &&
    ((left.dropWhile (!isEdge ·)).tail.dropWhile isSpace).head? ≠ some ':'

/-- Whether the character `c` shows a flaw. -/
def flaw (left : Text) (c : Char) : Bool :=
  (c = ']' && left.head? = some '[' && loose left.tail) ||
    ((anyType ++ anyType).reverse.isPrefixOf (c :: left)) ||
    (c ≠ ':' && left.head? = some ']' && closesIndex left.tail)

/-- The number of flaws in a text behind the text on the left. -/
def flaws (left : Text) : Text → Nat
  | [] => 0
  | c :: cs => (flaw left c).toNat + flaws (c :: left) cs

theorem flaws_append (left a b : Text) :
    flaws left (a ++ b) = flaws left a + flaws (a.reverse ++ left) b := by
  induction a generalizing left with
  | nil => simp [flaws]
  | cons c a ih => simp [flaws, ih, Nat.add_assoc]

theorem flaws_le_size (left text : Text) : flaws left text ≤ Text.size text := by
  induction text generalizing left with
  | nil => exact Nat.le_refl 0
  | cons c cs ih =>
    have hrest := ih (c :: left)
    have hflaw := (flaw left c).toNat_le
    have hchar := Char.utf8Size_pos c
    simp only [flaws, Text.size_cons]
    omega

section Barrier

/-- The characters past which no flaw is looked for. -/
def isBarrier (c : Char) : Bool := [']', ';', ',', '}'].contains c

theorem isBarrier_cases {b : Char} (h : isBarrier b = true) :
    b = ']' ∨ b = ';' ∨ b = ',' ∨ b = '}' := by
  simpa [isBarrier] using h

variable {b : Char} {l r : Text}

theorem dropWhile_barrier {p : Char → Bool} (hb : p b = false) (s l : Text) :
    (s ++ b :: l).dropWhile p = s.dropWhile p ++ b :: l := by
  induction s with
  | nil => simp [hb]
  | cons c s ih =>
    by_cases hc : p c = true
    · simp [hc, ih]
    · simp [hc]

theorem isPrefixOf_barrier {p : Text} (hb : b ∉ p) (s : Text) :
    p.isPrefixOf (s ++ b :: l) = p.isPrefixOf (s ++ b :: r) := by
  induction p generalizing s with
  | nil => simp
  | cons c p ih =>
    obtain ⟨hc, hp⟩ : ¬ b = c ∧ b ∉ p := by simpa using hb
    cases s with
    | nil => simp [List.isPrefixOf_cons_cons, beq_false_of_ne (Ne.symm hc)]
    | cons d s => simp [List.isPrefixOf_cons_cons, ih hp]

theorem length_le_of_isPrefixOf {p : Text} (hb : b ∉ p) {s : Text}
    (h : p.isPrefixOf (s ++ b :: l) = true) : p.length ≤ s.length := by
  induction p generalizing s with
  | nil => simp
  | cons c p ih =>
    obtain ⟨hc, hp⟩ : ¬ b = c ∧ b ∉ p := by simpa using hb
    cases s with
    | nil => simp [List.isPrefixOf_cons_cons, Ne.symm hc] at h
    | cons d s =>
      have := ih hp (Bool.and_eq_true_iff.1 h).2
      simpa using this

theorem head?_barrier (s : Text) : (s ++ b :: l).head? = (s ++ b :: r).head? := by
  cases s <;> rfl

variable (hb : isBarrier b = true)

include hb

theorem not_mem_anyType : b ∉ anyType.reverse := by
  rcases isBarrier_cases hb with rfl | rfl | rfl | rfl <;> decide

theorem typed_barrier (s : Text) : typed (s ++ b :: l) = typed (s ++ b :: r) := by
  have hbreak : (!isBreak b) = false := by
    rcases isBarrier_cases hb with rfl | rfl | rfl | rfl <;> rfl
  have hmark : ∀ p ∈ typeMarks, b ∉ p := by
    rcases isBarrier_cases hb with rfl | rfl | rfl | rfl <;> decide
  have hany : typeMarks.any (·.isPrefixOf (s.dropWhile (!isBreak ·) ++ b :: l)) =
      typeMarks.any (·.isPrefixOf (s.dropWhile (!isBreak ·) ++ b :: r)) := by
    rw [Bool.eq_iff_iff, List.any_eq_true, List.any_eq_true]
    exact exists_congr fun p => and_congr_right fun hp => by
      rw [isPrefixOf_barrier (hmark p hp)]
  rw [typed, typed, head?_barrier (r := r), dropWhile_barrier hbreak, dropWhile_barrier hbreak,
    hany]

theorem loose_barrier (s : Text) : loose (s ++ b :: l) = loose (s ++ b :: r) := by
  have hpre := isPrefixOf_barrier (not_mem_anyType hb) s (l := l) (r := r)
  have htyped : (anyType.reverse.isPrefixOf (s ++ b :: l) && typed ((s ++ b :: l).drop 5)) =
      (anyType.reverse.isPrefixOf (s ++ b :: r) && typed ((s ++ b :: r).drop 5)) := by
    cases h : anyType.reverse.isPrefixOf (s ++ b :: l) with
    | false => rw [← hpre, h, Bool.false_and, Bool.false_and]
    | true =>
      have hlen : 5 ≤ s.length := length_le_of_isPrefixOf (not_mem_anyType hb) h
      rw [← hpre, h, List.drop_append_of_le_length hlen, List.drop_append_of_le_length hlen,
        typed_barrier hb]
  rw [loose, loose, htyped, named, named, head?_barrier (r := r), typed_barrier hb]

theorem closesIndex_barrier (s : Text) :
    closesIndex (s ++ b :: l) = closesIndex (s ++ b :: r) := by
  have hedge : (!isEdge b) = false := by
    rcases isBarrier_cases hb with rfl | rfl | rfl | rfl <;> rfl
  have hspace : isSpace b = false := by
    rcases isBarrier_cases hb with rfl | rfl | rfl | rfl <;> rfl
  have hopen : b ≠ '[' := by
    rcases isBarrier_cases hb with rfl | rfl | rfl | rfl <;> decide
  rw [closesIndex, closesIndex, head?_barrier (r := r), dropWhile_barrier hedge,
    dropWhile_barrier hedge]
  cases s.dropWhile (!isEdge ·) with
  | nil => simp [hopen]
  | cons c s' =>
    simp only [List.cons_append, List.tail_cons, List.head?_cons, dropWhile_barrier hspace]
    rw [head?_barrier (s'.dropWhile isSpace) (r := r)]
    rfl

theorem flaw_barrier {s : Text} (hs : s ≠ [] ∨ b ≠ ']') (c : Char) :
    flaw (s ++ b :: l) c = flaw (s ++ b :: r) c := by
  have hdouble : b ∉ (anyType ++ anyType).reverse := by
    simpa using not_mem_anyType hb
  have hpre : (anyType ++ anyType).reverse.isPrefixOf (c :: (s ++ b :: l)) =
      (anyType ++ anyType).reverse.isPrefixOf (c :: (s ++ b :: r)) :=
    isPrefixOf_barrier hdouble (c :: s)
  unfold flaw
  rw [hpre]
  cases s with
  | nil =>
    have hopen : b ≠ '[' := by
      rcases isBarrier_cases hb with rfl | rfl | rfl | rfl <;> decide
    have hclose : b ≠ ']' := by simpa using hs
    simp [hopen, hclose]
  | cons d s =>
    simp only [List.cons_append, List.head?_cons, List.tail_cons]
    rw [loose_barrier hb s (r := r), closesIndex_barrier hb s (r := r)]
    rfl

/-- The flaws behind a barrier do not depend on what stands before it. -/
theorem flaws_barrier {s : Text} (hs : s ≠ [] ∨ b ≠ ']') (text : Text) :
    flaws (s ++ b :: l) text = flaws (s ++ b :: r) text := by
  induction text generalizing s with
  | nil => rfl
  | cons c cs ih =>
    rw [flaws, flaws, flaw_barrier hb hs (r := r), ← List.cons_append, ih (.inl (by simp)),
      List.cons_append]

end Barrier

/-- A pair of brackets hides what stands before it, too. -/
theorem flaws_brackets (l l' text : Text) :
    flaws (']' :: '[' :: l) text = flaws (']' :: '[' :: l') text := by
  have hflaw (l : Text) (c : Char) : flaw (']' :: '[' :: l) c = false := by
    simp [flaw, closesIndex, isEdge, edges, anyType, List.isPrefixOf_cons_cons]
  cases text with
  | nil => rfl
  | cons c cs =>
    rw [flaws, flaws, hflaw, hflaw]
    exact congrArg _ (flaws_barrier rfl (s := [c]) (.inl (by simp)) cs)

/-- The edits that the built-in rules make behind the text `before`: an element type for a pair of
brackets without one, a value type for an index signature, and an element type taken back that was
put behind a type. -/
inductive Mend (before : Text) : Text → Text → Prop
  | element {a b : Text} (name : named (before ++ a).reverse = true)
    (untyped : typed (before ++ a).reverse = false) :
    Mend before (a ++ '[' :: ']' :: b) (a ++ anyType ++ '[' :: ']' :: b)
  | value {a s : Text} {c : Char} (index : closesIndex (before ++ a).reverse = true)
    (spaces : ∀ x ∈ s, isSpace x = true) (stop : c = ';' ∨ c = ',' ∨ c = '}') :
    Mend before (a ++ ']' :: s ++ [c]) (a ++ ']' :: anyType ++ s ++ [c])
  | takeBack {a b : Text} (type : typed (before ++ a).reverse = true) :
    Mend before (a ++ anyType ++ '[' :: ']' :: b) (a ++ '[' :: ']' :: b)

theorem head?_ne_of_named {left : Text} (h : named left = true) : left.head? ≠ some ']' := by
  intro hh
  simp [named, hh, isBreak, breaks, edges] at h

theorem head?_ne_of_typed {left : Text} (h : typed left = true) : left.head? ≠ some ']' := by
  intro hh
  obtain ⟨l, rfl⟩ : ∃ l, left = ']' :: l := by
    cases left with
    | nil => simp at hh
    | cons c l => exact ⟨l, by simpa using hh⟩
  simp [typed, typeMarks, isBreak, breaks, edges, List.isPrefixOf_cons_cons] at h

/-- A pair of brackets shows the flaw that the text before it makes of it. -/
theorem flaws_pair {left : Text} (h : left.head? ≠ some ']') (b : Text) :
    flaws left ('[' :: ']' :: b) = (loose left).toNat + flaws (']' :: '[' :: left) b := by
  have hopen : flaw left '[' = false := by
    simp [flaw, h, anyType, List.isPrefixOf_cons_cons]
  have hclose : flaw ('[' :: left) ']' = loose left := by
    simp [flaw, anyType, List.isPrefixOf_cons_cons]
  rw [flaws, flaws, hopen, hclose]
  simp

/-- An annotation shows a flaw behind another one. -/
theorem flaws_anyType (left b : Text) :
    flaws left (anyType ++ b) = (anyType.reverse.isPrefixOf left).toNat +
      flaws (anyType.reverse ++ left) b := by
  have hlast : flaw ('n' :: 'a' :: ' ' :: ':' :: left) 'y' = anyType.reverse.isPrefixOf left := by
    simp [flaw, anyType]
  simp only [anyType, List.cons_append, List.nil_append, flaws, List.reverse_cons,
    List.reverse_nil] at hlast ⊢
  rw [hlast]
  simp [flaw, anyType, List.isPrefixOf_cons_cons]

/-- Spaces and the end of a member show no flaw, unless they come right behind a closing bracket. -/
theorem flaws_stop {left s : Text} {c : Char} (h : left.head? ≠ some ']')
    (hs : ∀ x ∈ s, isSpace x = true) (hc : c = ';' ∨ c = ',' ∨ c = '}') (rest : Text) :
    flaws left (s ++ c :: rest) = flaws (c :: (s.reverse ++ left)) rest := by
  induction s generalizing left with
  | nil =>
    have hflaw : flaw left c = false := by
      rcases hc with rfl | rfl | rfl <;> simp [flaw, h, anyType, List.isPrefixOf_cons_cons]
    simp [flaws, hflaw]
  | cons x s ih =>
    obtain ⟨hx, hs⟩ := List.forall_mem_cons.1 hs
    have hx' : x = ' ' ∨ x = '\t' := by simpa [isSpace] using hx
    have hflaw : flaw left x = false := by
      rcases hx' with rfl | rfl <;> simp [flaw, h, anyType, List.isPrefixOf_cons_cons]
    have hhead : (x :: left).head? ≠ some ']' := by
      rcases hx' with rfl | rfl <;> simp
    rw [List.cons_append, flaws, hflaw, ih hhead hs]
    simp

theorem typed_anyType (left : Text) : typed (anyType.reverse ++ left) = true := rfl

theorem typed_of_isPrefixOf {left : Text} (h : anyType.reverse.isPrefixOf left = true) :
    typed left = true := by
  obtain ⟨l, rfl⟩ := List.isPrefixOf_iff_prefix.1 h
  exact typed_anyType l

section Edits

variable {left : Text}

/-- Giving an element type takes a flaw away. -/
theorem flaws_element (hname : named left = true) (htype : typed left = false) (rest : Text) :
    flaws left (anyType ++ '[' :: ']' :: rest) < flaws left ('[' :: ']' :: rest) := by
  have hprefix : anyType.reverse.isPrefixOf left = false := by
    by_contra hp
    simp [typed_of_isPrefixOf (by simpa using hp)] at htype
  have hold : loose left = true := by simp [loose, hname, htype]
  have hnew : loose (anyType.reverse ++ left) = false := by
    have hdrop : (anyType.reverse ++ left).drop 5 = left := rfl
    rw [loose, typed_anyType, hdrop, htype]
    simp
  have hhead : (anyType.reverse ++ left).head? ≠ some ']' := by simp [anyType]
  rw [flaws_anyType, hprefix, flaws_pair hhead, hnew, flaws_pair (head?_ne_of_named hname), hold,
    flaws_brackets _ left]
  simp only [Bool.toNat_false, Bool.toNat_true]
  omega

/-- Taking an element type back takes a flaw away: what the brackets then show was shown by the
annotation before. -/
theorem flaws_takeBack (htype : typed left = true) (rest : Text) :
    flaws left ('[' :: ']' :: rest) < flaws left (anyType ++ '[' :: ']' :: rest) := by
  have hold : loose (anyType.reverse ++ left) = true := by
    have hdrop : (anyType.reverse ++ left).drop 5 = left := rfl
    have hprefix : anyType.reverse.isPrefixOf (anyType.reverse ++ left) = true :=
      List.isPrefixOf_iff_prefix.2 (List.prefix_append _ _)
    rw [loose, hdrop, htype, hprefix]
    simp
  have hnew : (loose left).toNat ≤ (anyType.reverse.isPrefixOf left).toNat := by
    rw [loose, htype]
    cases anyType.reverse.isPrefixOf left <;> simp [Bool.toNat_le]
  have hhead : (anyType.reverse ++ left).head? ≠ some ']' := by simp [anyType]
  rw [flaws_anyType, flaws_pair hhead, hold, flaws_pair (head?_ne_of_typed htype),
    flaws_brackets (anyType.reverse ++ left) left]
  simp only [Bool.toNat_true]
  omega

/-- Giving a value type takes a flaw away. -/
theorem flaws_value {s : Text} {c : Char} (hindex : closesIndex left = true)
    (hs : ∀ x ∈ s, isSpace x = true) (hc : c = ';' ∨ c = ',' ∨ c = '}') (rest : Text) :
    flaws (']' :: left) (anyType ++ (s ++ c :: rest)) < flaws (']' :: left) (s ++ c :: rest) := by
  have hbarrier : isBarrier c = true := by rcases hc with rfl | rfl | rfl <;> rfl
  have hclose : c ≠ ']' := by rcases hc with rfl | rfl | rfl <;> decide
  have hhide (l l' : Text) : flaws (c :: l) rest = flaws (c :: l') rest :=
    flaws_barrier hbarrier (s := []) (.inr hclose) rest
  have hnone : anyType.reverse.isPrefixOf (']' :: left) = false := rfl
  have hflaw (x : Char) (hx : x ≠ ':') : flaw (']' :: left) x = true := by
    simp only [flaw, List.head?_cons, List.tail_cons, hindex]
    simp [hx]
  have hhead : (anyType.reverse ++ ']' :: left).head? ≠ some ']' := by simp [anyType]
  rw [flaws_anyType, hnone, flaws_stop hhead hs hc]
  -- The first character behind the bracket shows the flaw.
  cases s with
  | nil =>
    have hx : c ≠ ':' := by rcases hc with rfl | rfl | rfl <;> decide
    rw [List.nil_append, flaws, hflaw c hx, hhide _ (']' :: left)]
    simp only [Bool.toNat_false, Bool.toNat_true]
    omega
  | cons x s =>
    obtain ⟨hx, hs⟩ := List.forall_mem_cons.1 hs
    have hx' : x = ' ' ∨ x = '\t' := by simpa [isSpace] using hx
    have hcolon : x ≠ ':' := by rcases hx' with rfl | rfl <;> decide
    have hhead : (x :: ']' :: left).head? ≠ some ']' := by
      rcases hx' with rfl | rfl <;> simp
    rw [List.cons_append, flaws, hflaw x hcolon, flaws_stop hhead hs hc,
      hhide _ (s.reverse ++ x :: ']' :: left)]
    simp only [Bool.toNat_false, Bool.toNat_true]
    omega

/-- Every edit takes away more flaws than it makes, whatever follows it. -/
theorem Mend.flaws_lt {before old new : Text} (h : Mend before old new) (rest : Text) :
    flaws before.reverse (new ++ rest) < flaws before.reverse (old ++ rest) := by
  cases h with
  | @element a b hname htype =>
    rw [List.append_assoc, List.append_assoc, List.append_assoc, flaws_append,
      flaws_append before.reverse a, ← List.reverse_append]
    exact Nat.add_lt_add_left (flaws_element hname htype (b ++ rest)) _
  | @value a s c hindex hs hc =>
    have hold : a ++ ']' :: s ++ [c] ++ rest = a ++ [']'] ++ (s ++ c :: rest) := by simp
    have hnew : a ++ ']' :: anyType ++ s ++ [c] ++ rest =
        a ++ [']'] ++ (anyType ++ (s ++ c :: rest)) := by simp
    have hleft : (a ++ [']']).reverse ++ before.reverse = ']' :: (before ++ a).reverse := by simp
    rw [hold, hnew, flaws_append, flaws_append before.reverse (a ++ [']']), hleft]
    exact Nat.add_lt_add_left (flaws_value hindex hs hc rest) _
  | @takeBack a b htype =>
    rw [List.append_assoc, List.append_assoc, List.append_assoc, flaws_append,
      flaws_append before.reverse a, ← List.reverse_append]
    exact Nat.add_lt_add_left (flaws_takeBack htype (b ++ rest)) _

/-- Rewriting a text by such edits takes away a flaw for each of them. -/
theorem flaws_rewritten {Edit : Text → Text → Text → Text → Prop}
    (hedit : ∀ {before old new after}, Edit before old new after → Mend before old new)
    {before text out : Text} {n : Nat} (h : Rewritten Edit before text out n) :
    flaws before.reverse out + n ≤ flaws before.reverse text := by
  induction h with
  | done => exact Nat.le_refl _
  | @keep before rest out n c _ ih =>
    rw [List.reverse_append] at ih
    simp only [flaws]
    have : flaws (c :: before.reverse) out + n ≤ flaws (c :: before.reverse) rest := ih
    omega
  | @edit before old new rest out n he _ ih =>
    have hlt := (hedit he).flaws_lt out
    rw [flaws_append before.reverse old, ← List.reverse_append] at hlt ⊢
    omega

end Edits

end SourceMend.Catalog
