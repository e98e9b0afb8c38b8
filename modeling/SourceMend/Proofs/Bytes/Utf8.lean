import SourceMend.Text.Basic

/-!
Texts as bytes. A character of ASCII is one byte, and the bytes of any other character all lie
beyond ASCII. The first byte of a character can be told from the others, so that a look at one byte
tells whether a place lies between two characters.
-/
namespace SourceMend

/-- The bytes of the UTF-8 form. -/
def Text.utf8 (t : Text) : List UInt8 := t.flatMap String.utf8EncodeChar

namespace Bytes

/-- A byte seen as a character of its own. -/
def seen (b : UInt8) : Char := Char.ofNat b.toNat

/-- Whether a byte belongs to a character that starts before it. -/
def isContinuation (b : UInt8) : Bool := 0x80 ≤ b.toNat && b.toNat < 0xC0

/-- The first byte of a character. -/
def lead (c : Char) : UInt8 := (String.utf8EncodeChar c).headD 0

/-- The other bytes of a character. -/
def trail (c : Char) : List UInt8 := (String.utf8EncodeChar c).tail

theorem utf8EncodeChar_eq (c : Char) : String.utf8EncodeChar c = lead c :: trail c := by
  have hlength := String.length_utf8EncodeChar c
  have hpos := Char.utf8Size_pos c
  rw [lead, trail]
  cases h : String.utf8EncodeChar c with
  | nil =>
    rw [h, List.length_nil] at hlength
    omega
  | cons b bs => rfl

theorem length_trail (c : Char) : (trail c).length + 1 = c.utf8Size := by
  rw [← String.length_utf8EncodeChar, utf8EncodeChar_eq, List.length_cons]

theorem toNat_seen (b : UInt8) : (seen b).toNat = b.toNat := by
  have hlt := b.toNat_lt
  have hvalid : b.toNat.isValidChar := .inl (by omega)
  rw [seen, Char.ofNat, dif_pos hvalid]
  rfl

section Char

variable {c : Char}

theorem utf8EncodeChar_ascii (h : c.toNat < 0x80) :
    String.utf8EncodeChar c = [UInt8.ofNat c.toNat] := by
  have hval : c.val.toNat = c.toNat := rfl
  simp only [String.utf8EncodeChar, hval]
  rw [if_pos (by omega)]

theorem seen_lead_ascii (h : c.toNat < 0x80) : seen (lead c) = c := by
  rw [lead, utf8EncodeChar_ascii h, List.headD_cons, seen,
    UInt8.toNat_ofNat_of_lt' (Nat.lt_trans h (by decide)), Char.ofNat_toNat]

theorem trail_ascii (h : c.toNat < 0x80) : trail c = [] := by
  rw [trail, utf8EncodeChar_ascii h, List.tail_cons]

theorem utf8Size_ascii (h : c.toNat < 0x80) : c.utf8Size = 1 := by
  rw [← length_trail, trail_ascii h, List.length_nil]

/-- The first byte of a character beyond ASCII lies beyond the continuations. -/
theorem beyond (h : 0x80 ≤ c.toNat) :
    0xC0 ≤ (lead c).toNat ∧ ∀ b ∈ trail c, isContinuation b = true := by
  have hval : c.val.toNat = c.toNat := rfl
  have hfirst (n m : Nat) (hn : n < m) (hm : m + 0xC0 ≤ 0x100) :
      0xC0 ≤ (UInt8.ofNat (n + 0xC0)).toNat := by
    rw [UInt8.toNat_ofNat_of_lt' (Nat.lt_of_lt_of_le (by omega : n + 0xC0 < 0x100) (by decide))]
    omega
  have hlast (n : Nat) : isContinuation (UInt8.ofNat (n % 64 + 128)) = true := by
    simp [isContinuation]
    omega
  simp only [lead, trail, String.utf8EncodeChar, hval]
  rw [if_neg (by omega)]
  split
  · simp only [List.headD_cons, List.tail_cons, List.forall_mem_cons, hlast]
    exact ⟨hfirst _ 32 (by omega) (by omega), by simp⟩
  · split
    · simp only [List.headD_cons, List.tail_cons, List.forall_mem_cons, hlast]
      exact ⟨hfirst (_ + 32) 64 (by omega) (by omega), by simp⟩
    · simp only [List.headD_cons, List.tail_cons, List.forall_mem_cons, hlast]
      exact ⟨hfirst (_ + 48) 64 (by omega) (by omega), by simp⟩

theorem isContinuation_lead (c : Char) : isContinuation (lead c) = false := by
  by_cases h : c.toNat < 0x80
  · have hlead := congrArg Char.toNat (seen_lead_ascii h)
    rw [toNat_seen] at hlead
    simp [isContinuation]
    omega
  · have := (beyond (Nat.not_lt.1 h)).1
    simp [isContinuation]
    omega

theorem isContinuation_of_mem_trail {b : UInt8} (h : b ∈ trail c) : isContinuation b = true := by
  by_cases hc : c.toNat < 0x80
  · rw [trail_ascii hc] at h
    cases h
  · exact (beyond (Nat.not_lt.1 hc)).2 b h

theorem le_of_mem_trail {b : UInt8} (h : b ∈ trail c) : 0x80 ≤ c.toNat := by
  refine Nat.not_lt.1 fun hc => ?_
  rw [trail_ascii hc] at h
  cases h

theorem toNat_seen_of_mem_trail {b : UInt8} (h : b ∈ trail c) : 0x80 ≤ (seen b).toNat := by
  have hb := isContinuation_of_mem_trail h
  rw [toNat_seen]
  simp [isContinuation] at hb
  omega

/-- A character is of ASCII if its first byte is, and then it is that byte. -/
theorem seen_lead_eq_iff {a : Char} (ha : a.toNat < 0x80) : seen (lead c) = a ↔ c = a := by
  by_cases h : c.toNat < 0x80
  · rw [seen_lead_ascii h]
  · have hlead := (beyond (Nat.not_lt.1 h)).1
    refine iff_of_false ?_ ?_
    · rintro rfl
      rw [toNat_seen] at ha
      omega
    · rintro rfl
      omega

theorem seen_ne_of_isContinuation {b : UInt8} (hb : isContinuation b = true) {a : Char}
    (ha : a.toNat < 0x80) : seen b ≠ a := by
  rintro rfl
  simp [isContinuation] at hb
  rw [toNat_seen] at ha
  omega

/-- The property does not tell the characters beyond ASCII apart. -/
def Coarse (p : Char → Bool) : Prop :=
  ∀ c d : Char, 0x80 ≤ c.toNat → 0x80 ≤ d.toNat → p c = p d

variable {p : Char → Bool}

theorem Coarse.lead (hp : Coarse p) (c : Char) : p (seen (lead c)) = p c := by
  by_cases h : c.toNat < 0x80
  · rw [seen_lead_ascii h]
  · have hlead := (beyond (Nat.not_lt.1 h)).1
    exact hp _ _ (by rw [toNat_seen]; omega) (Nat.not_lt.1 h)

theorem Coarse.trail (hp : Coarse p) {b : UInt8} (h : b ∈ trail c) : p (seen b) = p c :=
  hp _ _ (toNat_seen_of_mem_trail h) (le_of_mem_trail h)

end Char
end Bytes

/-! The bytes of a text -/

namespace Text

open Bytes

@[simp] theorem utf8_nil : utf8 [] = [] := rfl

@[simp] theorem utf8_cons (c : Char) (t : Text) :
    utf8 (c :: t) = lead c :: (trail c ++ utf8 t) := by
  rw [utf8, List.flatMap_cons, utf8EncodeChar_eq]
  rfl

@[simp] theorem utf8_append (s t : Text) : utf8 (s ++ t) = utf8 s ++ utf8 t := List.flatMap_append

@[simp] theorem length_utf8 (t : Text) : t.utf8.length = size t := by
  induction t with
  | nil => rfl
  | cons c t ih =>
    have := length_trail c
    simp only [utf8_cons, List.length_cons, List.length_append, ih, size_cons]
    omega

/-- The bytes are those of the text as a string. -/
theorem utf8_eq (t : Text) : t.utf8 = (String.ofList t).toUTF8.data.toList := by
  simp [utf8, List.utf8Encode]

theorem drop_utf8 (front back : Text) : (utf8 (front ++ back)).drop (size front) = utf8 back := by
  rw [utf8_append, ← length_utf8, List.drop_left]

/-- The byte between two parts of a text is the first one of the second part. -/
theorem utf8_between (front : Text) (c : Char) (back : Text) :
    (utf8 (front ++ c :: back))[size front]? = some (lead c) := by
  rw [← List.head?_drop, drop_utf8, utf8_cons, List.head?_cons]

/-- A byte inside a character. -/
theorem utf8_inside (front : Text) (c : Char) (back : Text) {i : Nat} (hlt : size front < i)
    (hin : i < size front + c.utf8Size) :
    ∃ b ∈ trail c, (utf8 (front ++ c :: back))[i]? = some b := by
  obtain ⟨n, rfl⟩ := Nat.exists_eq_add_of_lt hlt
  have hn : n < (trail c).length := by
    have := length_trail c
    omega
  refine ⟨(trail c)[n], List.getElem_mem hn, ?_⟩
  rw [Nat.add_assoc, ← List.getElem?_drop, drop_utf8, utf8_cons, List.getElem?_cons_succ,
    List.getElem?_append_left hn, List.getElem?_eq_getElem hn]

end Text

/-! Boundaries -/

namespace Bytes

/-- Whether byte `i` is the end of the bytes or the start of a character. -/
def isBoundary (src : List UInt8) (i : Nat) : Bool :=
  i = 0 || i = src.length || src[i]?.any (!isContinuation ·)

theorem isBoundary_eq_true {src : List UInt8} {i : Nat} : isBoundary src i = true ↔
    i = 0 ∨ i = src.length ∨ ∃ b, src[i]? = some b ∧ isContinuation b = false := by
  cases h : src[i]? <;> simp [isBoundary, h, or_assoc]

/-- A boundary parts the text in two. -/
theorem isBoundary_iff {text : Text} {i : Nat} : isBoundary (Text.utf8 text) i = true ↔
    ∃ front back, text = front ++ back ∧ Text.size front = i := by
  rw [isBoundary_eq_true, Text.length_utf8]
  constructor
  · intro h
    induction text generalizing i with
    | nil =>
      obtain rfl : i = 0 := by simpa using h
      exact ⟨[], [], rfl, rfl⟩
    | cons c text ih =>
      by_cases hzero : i = 0
      · exact ⟨[], c :: text, rfl, hzero.symm⟩
      by_cases hin : i < c.utf8Size
      · -- Inside the first character there is no boundary.
        obtain ⟨b, hb, hget⟩ := Text.utf8_inside [] c text (i := i) (by simp; omega) (by simpa)
        rcases h with h | h | ⟨b', hb', hlead⟩
        · contradiction
        · rw [Text.size_cons] at h
          omega
        · obtain rfl : b' = b := Option.some.inj (hb'.symm.trans hget)
          rw [isContinuation_of_mem_trail hb] at hlead
          cases hlead
      · obtain ⟨n, rfl⟩ := Nat.exists_eq_add_of_le (Nat.not_lt.1 hin)
        have hget : (Text.utf8 (c :: text))[c.utf8Size + n]? = (Text.utf8 text)[n]? := by
          have hdrop := Text.drop_utf8 [c] text
          simp only [Text.size_cons, Text.size_nil, Nat.add_zero, List.singleton_append] at hdrop
          rw [← List.getElem?_drop, hdrop]
        rw [hget, Text.size_cons, Nat.add_left_cancel_iff] at h
        obtain ⟨front, back, rfl, rfl⟩ := ih (h.imp_left fun h => absurd h hzero)
        exact ⟨c :: front, back, rfl, rfl⟩
  · rintro ⟨front, back, rfl, rfl⟩
    right
    cases back with
    | nil => simp
    | cons c back => exact .inr ⟨lead c, Text.utf8_between .., isContinuation_lead c⟩

/-- A boundary that is not in front of the end of `front` lies in what follows it. -/
theorem exists_between_of_isBoundary {front back : Text} {i : Nat}
    (h : isBoundary (Text.utf8 (front ++ back)) i = true) (hle : Text.size front ≤ i) :
    ∃ old after, back = old ++ after ∧ Text.size (front ++ old) = i := by
  obtain ⟨before, after, heq, rfl⟩ := isBoundary_iff.1 h
  rcases List.append_eq_append_iff.1 heq with ⟨more, rfl, hback⟩ | ⟨more, rfl, hafter⟩
  · exact ⟨more, after, hback, rfl⟩
  · rw [Text.size_append] at hle
    obtain rfl := (Text.size_eq_zero_iff more).1 (by omega)
    exact ⟨[], back, rfl, by simp⟩

/-- The part of a text between two bytes. There is none unless the first comes first and both are
boundaries. -/
def slice? (text : Text) (start stop : Nat) : Option Text :=
  if start ≤ stop ∧ isBoundary text.utf8 start ∧ isBoundary text.utf8 stop then
    some (Text.takeBytes (stop - start) (Text.dropBytes start text))
  else none

theorem slice?_between (before old after : Text) :
    slice? (before ++ old ++ after) (Text.size before) (Text.size (before ++ old)) = some old := by
  rw [slice?, if_pos]
  · rw [Text.size_append, Nat.add_sub_cancel_left, List.append_assoc, Text.dropBytes_size_append,
      Text.takeBytes_size_append]
  · exact ⟨by rw [Text.size_append]; omega,
      isBoundary_iff.2 ⟨before, old ++ after, List.append_assoc .., rfl⟩,
      isBoundary_iff.2 ⟨before ++ old, after, rfl, rfl⟩⟩

end Bytes
end SourceMend
