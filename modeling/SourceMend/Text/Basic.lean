/-!
Texts as lists of characters. A position in a text is the byte offset of its UTF-8 form, so the
size of a piece of text is the number of bytes that its characters take.
-/
namespace SourceMend

/-- A text is the list of its characters. -/
abbrev Text := List Char

namespace Text

/-- The number of bytes of the UTF-8 form. -/
def size : Text → Nat
  | [] => 0
  | c :: cs => c.utf8Size + size cs

@[simp] theorem size_nil : size [] = 0 := rfl

@[simp] theorem size_cons (c : Char) (cs : Text) : size (c :: cs) = c.utf8Size + size cs := rfl

@[simp] theorem size_append (a b : Text) : size (a ++ b) = size a + size b := by
  induction a with
  | nil => simp
  | cons c cs ih => simp [ih, Nat.add_assoc]

theorem size_eq_zero_iff (a : Text) : size a = 0 ↔ a = [] := by
  cases a with
  | nil => simp
  | cons c cs =>
    have := Char.utf8Size_pos c
    simp
    omega

theorem size_pos {a : Text} (h : a ≠ []) : 0 < size a :=
  Nat.pos_of_ne_zero (mt (size_eq_zero_iff a).1 h)

/-- The characters of the first `n` bytes; a character that starts before byte `n` is kept whole. -/
def takeBytes : Nat → Text → Text
  | _, [] => []
  | n, c :: cs => if n = 0 then [] else c :: takeBytes (n - c.utf8Size) cs

/-- The text after the characters that `takeBytes` gives. -/
def dropBytes : Nat → Text → Text
  | _, [] => []
  | n, c :: cs => if n = 0 then c :: cs else dropBytes (n - c.utf8Size) cs

/-- What stands before and behind the first `mark` in a text. -/
def splitOnce? (t mark : Text) : Option (Text × Text) :=
  match t with
  | [] => if mark.isEmpty then some ([], []) else none
  | c :: cs =>
    if mark.isPrefixOf (c :: cs) then some ([], (c :: cs).drop mark.length)
    else (splitOnce? cs mark).map fun (before, behind) => (c :: before, behind)

theorem takeBytes_append_dropBytes (n : Nat) (t : Text) : takeBytes n t ++ dropBytes n t = t := by
  induction t generalizing n with
  | nil => rfl
  | cons c cs ih =>
    by_cases h : n = 0
    · simp [takeBytes, dropBytes, h]
    · simp [takeBytes, dropBytes, h, ih]

/-- Cutting at the size of a leading piece gives back that piece and what follows it. -/
theorem takeBytes_size_append (a b : Text) : takeBytes (size a) (a ++ b) = a := by
  induction a with
  | nil => cases b <;> rfl
  | cons c cs ih =>
    have h := Char.utf8Size_pos c
    rw [List.cons_append, size_cons, takeBytes, if_neg (by omega), Nat.add_sub_cancel_left, ih]

theorem dropBytes_size_append (a b : Text) : dropBytes (size a) (a ++ b) = b := by
  have h := takeBytes_append_dropBytes (size a) (a ++ b)
  rw [takeBytes_size_append] at h
  exact List.append_cancel_left h

end Text
end SourceMend
