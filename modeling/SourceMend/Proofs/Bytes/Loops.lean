import SourceMend.Proofs.Bytes.Utf8
import SourceMend.Scope.Token

/-!
The loops of the scanner over bytes. A loop that steps from byte to byte, or over two bytes after a
backslash, may come to rest inside a character, but it ends at a boundary: there it has read the
characters that the extent of the literal counts.
-/
namespace SourceMend

open Bytes

namespace Text

variable {p : Char → Bool}

theorem takeWhile_utf8 (hp : Coarse p) (t : Text) :
    (utf8 t).takeWhile (fun b => p (seen b)) = utf8 (t.takeWhile p) := by
  induction t with
  | nil => rfl
  | cons c t ih =>
    rw [utf8_cons]
    by_cases h : p c = true
    · have hlead : p (seen (lead c)) = true := by rw [hp.lead, h]
      have htrail : ∀ b ∈ trail c, p (seen b) = true := fun b hb => by rw [hp.trail hb, h]
      rw [List.takeWhile_cons, if_pos hlead, List.takeWhile_append_of_pos htrail, ih,
        List.takeWhile_cons_of_pos h, utf8_cons]
    · have hlead : ¬ p (seen (lead c)) = true := by rwa [hp.lead]
      rw [List.takeWhile_cons, if_neg hlead, List.takeWhile_cons_of_neg h, utf8_nil]

end Text

namespace Bytes

theorem take_length_takeWhile (p : Char → Bool) (t : Text) :
    t.take (t.takeWhile p).length = t.takeWhile p :=
  (List.prefix_iff_eq_take.1 (List.takeWhile_prefix p)).symm

/-! Classes of characters -/

theorem coarse_of_ascii {p : Char → Bool} (h : ∀ c, p c = true → c.toNat < 0x80) : Coarse p := by
  intro c d hc hd
  have hfalse {x : Char} (hx : 0x80 ≤ x.toNat) : p x = false :=
    Bool.eq_false_iff.2 fun hp => Nat.not_lt.2 hx (h x hp)
  rw [hfalse hc, hfalse hd]

theorem coarse_ne {a : Char} (ha : a.toNat < 0x80) : Coarse (· ≠ a) := by
  intro c d hc hd
  have hne {x : Char} (hx : 0x80 ≤ x.toNat) : x ≠ a := by
    rintro rfl
    omega
  simp [hne hc, hne hd]

theorem ascii_of_le {c a : Char} (ha : a.toNat < 0x80) (h : c.val ≤ a.val) : c.toNat < 0x80 :=
  Nat.lt_of_le_of_lt (UInt32.le_iff_toNat_le.1 h) ha

theorem ascii_of_isAlpha {c : Char} (h : c.isAlpha = true) : c.toNat < 0x80 := by
  rcases Bool.or_eq_true_iff.1 h with hupper | hlower
  · have hle : c.val ≤ 'Z'.val := (of_decide_eq_true hupper).2
    exact ascii_of_le (by decide) hle
  · have hle : c.val ≤ 'z'.val := of_decide_eq_true (Bool.and_eq_true_iff.1 hlower).2
    exact ascii_of_le (by decide) hle

theorem ascii_of_isDigit {c : Char} (h : c.isDigit = true) : c.toNat < 0x80 := by
  have hle : c.val ≤ '9'.val := of_decide_eq_true (Bool.and_eq_true_iff.1 h).2
  exact ascii_of_le (by decide) hle

theorem coarse_isAlpha : Coarse Char.isAlpha := coarse_of_ascii fun _ => ascii_of_isAlpha

theorem coarse_isDigit : Coarse Char.isDigit := coarse_of_ascii fun _ => ascii_of_isDigit

theorem coarse_isNumberContinue : Coarse Token.isNumberContinue := by
  refine coarse_of_ascii fun c h => ?_
  simp only [Token.isNumberContinue, Char.isAlphanum, Bool.or_eq_true, decide_eq_true_eq] at h
  rcases h with ((h | h) | rfl) | rfl
  · exact ascii_of_isAlpha h
  · exact ascii_of_isDigit h
  · decide
  · decide

/-- Every character beyond ASCII can start a word. -/
theorem isIdentStart_beyond {c : Char} (h : 0x80 ≤ c.toNat) : Token.isIdentStart c = true := by
  simp [Token.isIdentStart, h]

theorem coarse_isIdentStart : Coarse Token.isIdentStart := fun c d hc hd => by
  rw [isIdentStart_beyond hc, isIdentStart_beyond hd]

theorem coarse_isIdentContinue : Coarse Token.isIdentContinue := fun c d hc hd => by
  simp [Token.isIdentContinue, isIdentStart_beyond hc, isIdentStart_beyond hd]

variable (src : List UInt8)

/-! Runs of one kind of byte -/

/-- The first byte from `i` on that does not have the property. -/
def runEnd (p : Char → Bool) (i : Nat) : Option Nat :=
  if i < src.length then do
    let b ← src[i]?
    if p (seen b) then runEnd p (i + 1) else some i
  else some i
termination_by src.length - i

/-- The first line feed from `i` on. -/
def lineEnd (i : Nat) : Option Nat :=
  if i ≤ src.length then some (i + (src.drop i).findIdx (seen · = '\n')) else none

/-- Where the end of a comment stands in some bytes. -/
def findClose : List UInt8 → Option Nat
  | a :: b :: rest =>
    if seen a = '*' ∧ seen b = '/' then some 0 else (findClose (b :: rest)).map (· + 1)
  | _ => none

/-- The end of a comment whose text starts at `i`. -/
def commentEnd (i : Nat) : Option Nat :=
  if i ≤ src.length then
    match findClose (src.drop i) with
    | some n => some (i + n + 2)
    | none => some src.length
  else none

/-- The end of a string with the quote `q`, from `i` on. -/
def stringEnd (q : Char) (i : Nat) : Option Nat :=
  if i < src.length then do
    let b ← src[i]?
    if seen b = '\\' then stringEnd q (i + 2)
    else if seen b = '\n' then some i
    else if seen b = q then some (i + 1)
    else stringEnd q (i + 1)
  else some src.length
termination_by src.length - i

/-- The end of a regex and its flags, from `i` on. -/
def regexEnd (inClass : Bool) (i : Nat) : Option Nat :=
  if i < src.length then do
    let b ← src[i]?
    if seen b = '\\' then regexEnd inClass (i + 2)
    else if seen b = '\n' then some i
    else if seen b = '[' then regexEnd true (i + 1)
    else if seen b = ']' then regexEnd false (i + 1)
    else if seen b = '/' ∧ inClass = false then runEnd src Char.isAlpha (i + 1)
    else regexEnd inClass (i + 1)
  else some (min src.length i)
termination_by src.length - i

variable {src} {i : Nat} {b : UInt8}

theorem runEnd_byte (p : Char → Bool) (h : src[i]? = some b) :
    runEnd src p i = if p (seen b) then runEnd src p (i + 1) else some i := by
  rw [runEnd, if_pos (List.getElem?_eq_some_iff.1 h).1, h]
  rfl

theorem stringEnd_byte (q : Char) (h : src[i]? = some b) : stringEnd src q i =
    if seen b = '\\' then stringEnd src q (i + 2)
    else if seen b = '\n' then some i
    else if seen b = q then some (i + 1)
    else stringEnd src q (i + 1) := by
  rw [stringEnd, if_pos (List.getElem?_eq_some_iff.1 h).1, h]
  rfl

theorem regexEnd_byte (inClass : Bool) (h : src[i]? = some b) : regexEnd src inClass i =
    if seen b = '\\' then regexEnd src inClass (i + 2)
    else if seen b = '\n' then some i
    else if seen b = '[' then regexEnd src true (i + 1)
    else if seen b = ']' then regexEnd src false (i + 1)
    else if seen b = '/' ∧ inClass = false then runEnd src Char.isAlpha (i + 1)
    else regexEnd src inClass (i + 1) := by
  rw [regexEnd, if_pos (List.getElem?_eq_some_iff.1 h).1, h]
  rfl

theorem runEnd_eq_takeWhile (p : Char → Bool) {i : Nat} (hi : i ≤ src.length) :
    runEnd src p i = some (i + ((src.drop i).takeWhile fun b => p (seen b)).length) := by
  by_cases hlt : i < src.length
  · rw [runEnd_byte p (List.getElem?_eq_getElem hlt), List.drop_eq_getElem_cons hlt,
      List.takeWhile_cons]
    split
    · rw [runEnd_eq_takeWhile p (i := i + 1) hlt, List.length_cons, Nat.add_right_comm,
        Nat.add_assoc]
    · rfl
  · rw [runEnd, if_neg hlt, List.drop_eq_nil_of_le (by omega)]
    rfl
termination_by src.length - i

/-! At a boundary -/

variable (front : Text)

theorem runEnd_eq {p : Char → Bool} (hp : Coarse p) (back : Text) :
    runEnd (Text.utf8 (front ++ back)) p (Text.size front) =
      some (Text.size (front ++ back.takeWhile p)) := by
  rw [runEnd_eq_takeWhile p (by simp), Text.drop_utf8, Text.takeWhile_utf8 hp, Text.length_utf8,
    Text.size_append]

theorem lineEnd_eq (back : Text) : lineEnd (Text.utf8 (front ++ back)) (Text.size front) =
    some (Text.size (front ++ back.takeWhile (· ≠ '\n'))) := by
  have hfind (l : List UInt8) : l.findIdx (seen · = '\n') =
      (l.takeWhile fun b => decide (seen b ≠ '\n')).length := by
    induction l with
    | nil => rfl
    | cons b l ih =>
      rw [List.findIdx_cons, List.takeWhile_cons, ih]
      by_cases hb : seen b = '\n' <;> simp [hb]
  rw [lineEnd, if_pos (by simp), Text.drop_utf8, hfind, Text.takeWhile_utf8 (coarse_ne (by decide)),
    Text.length_utf8, Text.size_append]

/-! Inside a character -/

/-- The loop steps over the bytes inside a character one by one. -/
def StepsOver (src : List UInt8) (f : Nat → Option Nat) : Prop :=
  ∀ i b, src[i]? = some b → isContinuation b = true → f i = f (i + 1)

theorem StepsOver.char {front back : Text} {c : Char} {f : Nat → Option Nat}
    (h : StepsOver (Text.utf8 (front ++ c :: back)) f) :
    f (Text.size front + 1) = f (Text.size (front ++ [c])) := by
  have hstep (n : Nat) (hn : n < c.utf8Size) :
      f (Text.size front + c.utf8Size - n) = f (Text.size front + c.utf8Size) := by
    induction n with
    | zero => rfl
    | succ n ih =>
      obtain ⟨b, hb, hget⟩ := Text.utf8_inside front c back
        (i := Text.size front + c.utf8Size - (n + 1)) (by omega) (by omega)
      rw [h _ b hget (isContinuation_of_mem_trail hb), ← ih (by omega)]
      congr 1
      omega
  have hpos := Char.utf8Size_pos c
  have := hstep (c.utf8Size - 1) (by omega)
  rw [show Text.size front + c.utf8Size - (c.utf8Size - 1) = Text.size front + 1 by omega] at this
  rw [this, Text.size_append]
  rfl

/-- After a backslash the loop comes to the end of the character behind it. -/
theorem StepsOver.escape {front back : Text} {f : Nat → Option Nat}
    (h : StepsOver (Text.utf8 (front ++ '\\' :: back)) f)
    (hend : ∀ i, (Text.utf8 (front ++ '\\' :: back)).length ≤ i →
      f i = some (Text.utf8 (front ++ '\\' :: back)).length) :
    f (Text.size front + 2) = f (Text.size (front ++ '\\' :: back.take 1)) := by
  have hsize : Text.size ['\\'] = 1 := rfl
  cases back with
  | nil =>
    have hlength : (Text.utf8 (front ++ ['\\'])).length = Text.size front + 1 := by
      rw [Text.length_utf8, Text.size_append, hsize]
    rw [hend _ (by omega), hend _ (by rw [Text.length_utf8]; exact Nat.le_refl _)]
  | cons c back =>
    have h' : StepsOver (Text.utf8 ((front ++ ['\\']) ++ c :: back)) f := by
      rwa [List.append_assoc]
    have hchar := h'.char
    rwa [Text.size_append, hsize, List.append_assoc] at hchar

/-! Comments -/

/-- Where a comment over these bytes ends. -/
def closeOf (l : List UInt8) : Nat := ((findClose l).map (· + 2)).getD l.length

theorem closeOf_cons (b : UInt8) (l : List UInt8) : closeOf (b :: l) =
    if seen b = '*' ∧ l.head?.map seen = some '/' then 2 else closeOf l + 1 := by
  cases l with
  | nil => simp [closeOf, findClose]
  | cons b' l =>
    rw [closeOf, findClose]
    simp only [List.head?_cons, Option.map_some, Option.some.injEq]
    split
    · rfl
    · rw [closeOf]
      cases findClose (b' :: l) with
      | none => rfl
      | some n => simp [Nat.add_right_comm]

theorem closeOf_append {s : List UInt8} (hs : ∀ b ∈ s, seen b ≠ '*') (l : List UInt8) :
    closeOf (s ++ l) = s.length + closeOf l := by
  induction s with
  | nil => simp
  | cons b s ih =>
    obtain ⟨hb, hs⟩ := List.forall_mem_cons.1 hs
    rw [List.cons_append, closeOf_cons, if_neg fun h => hb h.1, ih hs, List.length_cons]
    omega

theorem closeOf_utf8 (t : Text) :
    closeOf (Text.utf8 t) = Text.size (t.take (Token.blockCommentExtent t)) := by
  induction t with
  | nil => rfl
  | cons c t ih =>
    have hstar : seen (lead c) = '*' ↔ c = '*' := seen_lead_eq_iff (by decide)
    rw [Text.utf8_cons, closeOf_cons, Token.blockCommentExtent]
    simp only [hstar]
    by_cases hc : c = '*'
    · subst hc
      have htrail : trail '*' = [] := trail_ascii (by decide)
      have hhead : (Text.utf8 t).head?.map seen = some '/' ↔ t.head? = some '/' := by
        cases t with
        | nil => simp
        | cons d t => simp [seen_lead_eq_iff (show '/'.toNat < 0x80 by decide)]
      simp only [htrail, List.nil_append, hhead]
      split
      · next h =>
        obtain ⟨t, rfl⟩ := List.head?_eq_some_iff.1 h.2
        rfl
      · rw [ih, Nat.add_comm 1, List.take_succ_cons, Text.size_cons, Nat.add_comm]
        rfl
    · rw [if_neg fun h => hc h.1, if_neg fun h => hc h.1, Nat.add_comm 1, List.take_succ_cons,
        closeOf_append fun b hb => ?_, ih, Text.size_cons]
      · have := length_trail c
        omega
      · exact seen_ne_of_isContinuation (isContinuation_of_mem_trail hb) (by decide)

theorem commentEnd_eq (back : Text) : commentEnd (Text.utf8 (front ++ back)) (Text.size front) =
    some (Text.size (front ++ back.take (Token.blockCommentExtent back))) := by
  rw [commentEnd, if_pos (by simp), Text.drop_utf8, Text.size_append, ← closeOf_utf8, closeOf]
  cases findClose (Text.utf8 back) with
  | none => simp
  | some n => simp [Nat.add_assoc]

/-! Strings -/

theorem take_stringExtent_cons (q c : Char) (cs : Text) :
    (c :: cs).take (Token.stringExtent q (c :: cs)) =
      if c = '\\' then c :: cs.take 1 ++ (cs.drop 1).take (Token.stringExtent q (cs.drop 1))
      else if c = '\n' then []
      else if c = q then [c]
      else c :: cs.take (Token.stringExtent q cs) := by
  cases cs with
  | nil =>
    by_cases hline : c = '\n'
    · simp [Token.stringExtent, hline]
    · simp [Token.stringExtent, hline]
  | cons d cs =>
    rw [Token.stringExtent]
    split
    · simp [Nat.add_comm 2]
    split
    · rfl
    split
    · simp
    · simp [Nat.add_comm 1]

theorem stepsOver_stringEnd (src : List UInt8) {q : Char} (hq : q.toNat < 0x80) :
    StepsOver src (stringEnd src q) := by
  intro i b hget hb
  rw [stringEnd_byte q hget, if_neg (seen_ne_of_isContinuation hb (by decide)),
    if_neg (seen_ne_of_isContinuation hb (by decide)), if_neg (seen_ne_of_isContinuation hb hq)]

theorem stringEnd_of_le {q : Char} (h : src.length ≤ i) : stringEnd src q i = some src.length := by
  rw [stringEnd, if_neg (Nat.not_lt.2 h)]

/-- A string over bytes ends where its extent in characters ends. -/
theorem stringEnd_eq {q : Char} (hq : q.toNat < 0x80) (front back : Text) :
    stringEnd (Text.utf8 (front ++ back)) q (Text.size front) =
      some (Text.size (front ++ back.take (Token.stringExtent q back))) := by
  cases back with
  | nil => simp [stringEnd_of_le]
  | cons c back =>
    have hsteps := stepsOver_stringEnd (Text.utf8 (front ++ c :: back)) hq
    rw [stringEnd_byte q (Text.utf8_between ..), take_stringExtent_cons]
    simp only [seen_lead_eq_iff (show '\\'.toNat < 0x80 by decide),
      seen_lead_eq_iff (show '\n'.toNat < 0x80 by decide), seen_lead_eq_iff hq]
    split
    · next hc =>
      subst hc
      rw [hsteps.escape fun i hi => stringEnd_of_le hi]
      have ih := stringEnd_eq hq (front ++ '\\' :: back.take 1) (back.drop 1)
      rw [List.append_assoc, List.cons_append, List.take_append_drop] at ih
      rw [ih, List.append_assoc]
    split
    · rw [List.append_nil]
    split
    · next hc =>
      subst hc
      rw [Text.size_append, Text.size_cons, utf8Size_ascii hq]
      rfl
    · rw [hsteps.char]
      have ih := stringEnd_eq hq (front ++ [c]) back
      rwa [← List.append_cons, ← List.append_cons] at ih
termination_by back.length
decreasing_by all_goals simp only [List.length_cons, List.length_drop]; omega

/-! Regexes -/

theorem take_regexExtent_cons (inClass : Bool) (c : Char) (cs : Text) :
    (c :: cs).take (Token.regexExtent inClass (c :: cs)) =
      if c = '\\' then
        c :: cs.take 1 ++ (cs.drop 1).take (Token.regexExtent inClass (cs.drop 1))
      else if c = '\n' then []
      else if c = '/' ∧ inClass = false then c :: cs.takeWhile Char.isAlpha
      else
        let inClass' := if c = '[' then true else if c = ']' then false else inClass
        c :: cs.take (Token.regexExtent inClass' cs) := by
  cases cs with
  | nil =>
    by_cases hline : c = '\n'
    · simp [Token.regexExtent, hline]
    · simp [Token.regexExtent, hline]
  | cons d cs =>
    rw [Token.regexExtent]
    split
    · simp [Nat.add_comm 2]
    split
    · rfl
    split
    · rw [Nat.add_comm, List.take_succ_cons,
        take_length_takeWhile]
    · rw [Nat.add_comm, List.take_succ_cons]

theorem stepsOver_regexEnd (src : List UInt8) (inClass : Bool) :
    StepsOver src (regexEnd src inClass) := by
  intro i b hget hb
  have hne {a : Char} (ha : a.toNat < 0x80) : seen b ≠ a := seen_ne_of_isContinuation hb ha
  rw [regexEnd_byte inClass hget, if_neg (hne (by decide)), if_neg (hne (by decide)),
    if_neg (hne (by decide)), if_neg (hne (by decide)), if_neg fun h => hne (by decide) h.1]

theorem regexEnd_of_le {inClass : Bool} (h : src.length ≤ i) :
    regexEnd src inClass i = some src.length := by
  rw [regexEnd, if_neg (Nat.not_lt.2 h), Nat.min_eq_left h]

/-- A regex over bytes ends where its extent in characters ends. -/
theorem regexEnd_eq (inClass : Bool) (front back : Text) :
    regexEnd (Text.utf8 (front ++ back)) inClass (Text.size front) =
      some (Text.size (front ++ back.take (Token.regexExtent inClass back))) := by
  cases back with
  | nil => simp [regexEnd_of_le]
  | cons c back =>
    have hsteps (k : Bool) := stepsOver_regexEnd (Text.utf8 (front ++ c :: back)) k
    have hnext (k : Bool) : regexEnd (Text.utf8 (front ++ c :: back)) k (Text.size front + 1) =
        some (Text.size (front ++ c :: back.take (Token.regexExtent k back))) := by
      have ih := regexEnd_eq k (front ++ [c]) back
      rw [(hsteps k).char]
      rwa [← List.append_cons, ← List.append_cons] at ih
    have hascii {a : Char} (ha : a.toNat < 0x80) : seen (lead c) = a ↔ c = a := seen_lead_eq_iff ha
    rw [regexEnd_byte inClass (Text.utf8_between ..), take_regexExtent_cons]
    simp only [hascii (show '\\'.toNat < 0x80 by decide), hascii (show '\n'.toNat < 0x80 by decide),
      hascii (show '['.toNat < 0x80 by decide), hascii (show ']'.toNat < 0x80 by decide),
      hascii (show '/'.toNat < 0x80 by decide)]
    by_cases hescape : c = '\\'
    · subst hescape
      rw [if_pos rfl, if_pos rfl, (hsteps inClass).escape fun i hi => regexEnd_of_le hi]
      have ih := regexEnd_eq inClass (front ++ '\\' :: back.take 1) (back.drop 1)
      rw [List.append_assoc, List.cons_append, List.take_append_drop] at ih
      rw [ih, List.append_assoc]
    rw [if_neg hescape, if_neg hescape]
    by_cases hline : c = '\n'
    · rw [if_pos hline, if_pos hline, List.append_nil]
    rw [if_neg hline, if_neg hline]
    by_cases hopen : c = '['
    · subst hopen
      exact hnext true
    rw [if_neg hopen]
    by_cases hclose : c = ']'
    · subst hclose
      exact hnext false
    rw [if_neg hclose]
    by_cases hslash : c = '/' ∧ inClass = false
    · obtain ⟨rfl, rfl⟩ := hslash
      rw [if_pos ⟨rfl, rfl⟩, if_pos ⟨rfl, rfl⟩]
      have hflags := runEnd_eq (front ++ ['/']) coarse_isAlpha back
      rw [Text.size_append] at hflags
      rwa [List.append_assoc, List.append_assoc] at hflags
    · rw [if_neg hslash, if_neg hslash, if_neg hopen, if_neg hclose]
      exact hnext inClass
termination_by back.length
decreasing_by all_goals simp only [List.length_cons, List.length_drop]; omega

end Bytes
end SourceMend
