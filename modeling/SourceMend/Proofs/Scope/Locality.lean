import Mathlib.Data.List.TakeWhile
import SourceMend.Proofs.Scope.Alike

/-!
Locality of the scanner. What is read before a character of code does not depend on that character
and on what follows it, as long as the character ends words and numbers and has no part in the
literals and comments around it.
-/
namespace SourceMend.Scope

/-- The characters besides those of words and numbers that the scanner looks ahead for. -/
def lookahead : List Char := ['/', '*', '>', '{', '\n']

/-- The scanner does not look ahead for the character. -/
structure Inert (x : Char) : Prop where
  word : Token.isIdentContinue x = false
  number : Token.isNumberContinue x = false
  ahead : x ∉ lookahead

instance (x : Char) : Decidable (Inert x) :=
  decidable_of_iff (Token.isIdentContinue x = false ∧ Token.isNumberContinue x = false ∧
    x ∉ lookahead) ⟨fun ⟨hw, hn, ha⟩ => ⟨hw, hn, ha⟩, fun h => ⟨h.word, h.number, h.ahead⟩⟩

/-- Two characters that end words and numbers, but no line, and that the scanner cannot tell apart
when it looks ahead. -/
structure Swap (x y : Char) : Prop where
  word : Token.isIdentContinue x = false ∧ Token.isIdentContinue y = false
  number : Token.isNumberContinue x = false ∧ Token.isNumberContinue y = false
  newline : x ≠ '\n' ∧ y ≠ '\n'
  ahead : ∀ z ∈ lookahead, x = z ↔ y = z

theorem not_alpha_of_word {x : Char} (h : Token.isIdentContinue x = false) : x.isAlpha = false := by
  simp_all [Token.isIdentContinue, Token.isIdentStart]

namespace Inert

variable {x y : Char} (hx : Inert x) (hy : Inert y)

include hx

theorem ne {z : Char} (hz : z ∈ lookahead) : x ≠ z := fun h => hx.ahead (h ▸ hz)

include hy

theorem swap : Swap x y where
  word := ⟨hx.word, hy.word⟩
  number := ⟨hx.number, hy.number⟩
  newline := ⟨hx.ne (by decide), hy.ne (by decide)⟩
  ahead _ hz := iff_of_false (hx.ne hz) (hy.ne hz)

end Inert

section Swap

variable {x y : Char} {v w : Text} (h : Swap x y)

include h

theorem stringExtent_pos (q : Char) (v : Text) : 0 < Token.stringExtent q (x :: v) := by
  have hn := h.newline.1
  cases v with
  | nil => simp [Token.stringExtent, hn]
  | cons d v =>
    rw [Token.stringExtent, if_neg hn]
    split_ifs <;> omega

theorem regexExtent_pos (inClass : Bool) (v : Text) : 0 < Token.regexExtent inClass (x :: v) := by
  have hn := h.newline.1
  cases v with
  | nil => simp [Token.regexExtent, hn]
  | cons d v =>
    rw [Token.regexExtent, if_neg hn]
    split_ifs <;> omega

theorem head?_swap {z : Char} (hz : z ∈ lookahead) (cs : Text) :
    ((cs ++ y :: w).head? = some z) = ((cs ++ x :: v).head? = some z) := by
  cases cs with
  | nil => simp [h.ahead z hz]
  | cons c cs => rfl

/-- A comment that ends before the character ends there whatever follows. -/
theorem lineCommentExtent_swap (u : Text)
    (hle : Token.lineCommentExtent (u ++ x :: v) ≤ u.length) :
    Token.lineCommentExtent (u ++ y :: w) = Token.lineCommentExtent (u ++ x :: v) := by
  induction u with
  | nil => simp [Token.lineCommentExtent, h.newline.1] at hle
  | cons c u ih =>
    simp only [Token.lineCommentExtent, List.cons_append, List.takeWhile_cons] at hle ih ⊢
    split
    · next hc => simpa using ih (by simpa [hc] using hle)
    · rfl

theorem blockCommentExtent_swap (u : Text)
    (hle : Token.blockCommentExtent (u ++ x :: v) ≤ u.length) :
    Token.blockCommentExtent (u ++ y :: w) = Token.blockCommentExtent (u ++ x :: v) := by
  induction u with
  | nil =>
    rw [List.nil_append, Token.blockCommentExtent] at hle
    split at hle <;> simp at hle
  | cons c u ih =>
    simp only [List.cons_append, Token.blockCommentExtent, List.length_cons] at hle ⊢
    simp only [head?_swap (v := v) (w := w) h (show '/' ∈ lookahead by decide) u]
    split
    · rfl
    · next hc => rw [ih (by rw [if_neg hc] at hle; omega)]

theorem stringExtent_swap (q : Char) : ∀ u : Text,
    Token.stringExtent q (u ++ x :: v) ≤ u.length →
    Token.stringExtent q (u ++ y :: w) = Token.stringExtent q (u ++ x :: v)
  | [], hle => by
    have := stringExtent_pos h q v
    simp only [List.nil_append, List.length_nil] at hle
    omega
  | [c], hle => by
    have := stringExtent_pos h q v
    simp only [List.cons_append, List.nil_append, Token.stringExtent,
      List.length_singleton] at hle ⊢
    split_ifs at hle ⊢ <;> first | rfl | omega
  | c :: d :: u, hle => by
    have hskip := stringExtent_swap q u
    have hnext := stringExtent_swap q (d :: u)
    simp only [List.cons_append, Token.stringExtent, List.length_cons] at hle hskip hnext ⊢
    split_ifs at hle ⊢
    · rw [hskip (by omega)]
    · rfl
    · rfl
    · rw [hnext (by omega)]

theorem regexExtent_swap (inClass : Bool) : ∀ u : Text,
    Token.regexExtent inClass (u ++ x :: v) ≤ u.length →
    Token.regexExtent inClass (u ++ y :: w) = Token.regexExtent inClass (u ++ x :: v)
  | [], hle => by
    have := regexExtent_pos h inClass v
    simp only [List.nil_append, List.length_nil] at hle
    omega
  | [c], hle => by
    have hlong (i : Bool) (hi : 1 + Token.regexExtent i (x :: v) ≤ 1) : False := by
      have := regexExtent_pos h i v
      omega
    have hstop : ((x :: v).takeWhile Char.isAlpha).length =
        ((y :: w).takeWhile Char.isAlpha).length := by
      simp [not_alpha_of_word h.word.1, not_alpha_of_word h.word.2]
    simp only [List.cons_append, List.nil_append, Token.regexExtent, List.length_singleton] at hle ⊢
    split_ifs at hle ⊢ with hesc hend hclose
    · omega
    · rfl
    · rw [hstop]
    all_goals exact (hlong _ hle).elim
  | c :: d :: u, hle => by
    have hskip := regexExtent_swap inClass u
    have hnext := fun i => regexExtent_swap i (d :: u)
    have hflags : ((d :: u ++ y :: w).takeWhile Char.isAlpha).length =
        ((d :: u ++ x :: v).takeWhile Char.isAlpha).length := by
      rw [takeWhile_stop (not_alpha_of_word h.word.1), takeWhile_stop (not_alpha_of_word h.word.2)]
    simp only [List.cons_append, Token.regexExtent, List.length_cons] at hle hskip hnext hflags ⊢
    split_ifs at hle ⊢ with hesc hend hclose
    · rw [hskip (by omega)]
    · rfl
    · rw [hflags]
    all_goals rw [hnext _ (by omega)]

end Swap

/-- The second step is the first one, if the first reads no more than `n` characters ahead. -/
def Step.Local (n : Nat) (s t : Step) : Prop := s.extent ≤ n → t = s

theorem Step.Local.ite {n : Nat} {p : Prop} [Decidable p] {s t u v : Step} (hs : s.Local n u)
    (ht : t.Local n v) : (if p then s else t).Local n (if p then u else v) := by
  split
  · exact hs
  · exact ht

theorem Step.Local.refl (n : Nat) (s : Step) : s.Local n s := fun _ => rfl

theorem Step.Local.extent {n e e₂ : Nat} (h : e ≤ n → e₂ = e) (kind : SpanKind) (k : Control) :
    Step.Local n ⟨kind, e, k⟩ ⟨kind, e₂, k⟩ := fun he => by rw [h he]

section Step

variable {x y : Char} {v w : Text} (h : Swap x y) (k : Control) (c : Char)
  (cs : Text)

include h

theorem stepTemplate_local :
    (stepTemplate k c (cs ++ x :: v)).Local cs.length (stepTemplate k c (cs ++ y :: w)) := by
  simp only [stepTemplate, head?_swap (v := v) (w := w) h (show '{' ∈ lookahead by decide) cs]
  exact .refl _ _

theorem stepTag_local (depth : UInt32) (closing : Bool) :
    (stepTag k depth closing c (cs ++ x :: v)).Local cs.length
      (stepTag k depth closing c (cs ++ y :: w)) := by
  simp only [stepTag, head?_swap (v := v) (w := w) h (show '>' ∈ lookahead by decide) cs]
  exact .ite (.extent (stringExtent_swap h c cs) _ _) (.refl _ _)

theorem stepChildren_local (depth : UInt32) :
    (stepChildren k depth c (cs ++ x :: v)).Local cs.length
      (stepChildren k depth c (cs ++ y :: w)) := by
  simp only [stepChildren, head?_swap (v := v) (w := w) h (show '/' ∈ lookahead by decide) cs]
  exact .refl _ _

theorem stepCode_local (d : Dialect) (pos : Nat) :
    (stepCode d k pos c (cs ++ x :: v)).Local cs.length (stepCode d k pos c (cs ++ y :: w)) := by
  have hmarkup : ((cs ++ y :: w).head?.any fun n => n.isAlpha || n = '>') =
      (cs ++ x :: v).head?.any fun n => n.isAlpha || n = '>' := by
    cases cs with
    | nil =>
      simp [not_alpha_of_word h.word.1, not_alpha_of_word h.word.2, h.ahead '>' (by decide)]
    | cons => rfl
  have hblock (hle : 1 + Token.blockCommentExtent (cs ++ x :: v).tail ≤ cs.length) :
      1 + Token.blockCommentExtent (cs ++ y :: w).tail =
        1 + Token.blockCommentExtent (cs ++ x :: v).tail := by
    cases cs with
    | nil => simp at hle
    | cons z cs =>
      simp only [List.cons_append, List.tail_cons, List.length_cons] at hle ⊢
      rw [blockCommentExtent_swap (v := v) h cs (by omega)]
  simp only [stepCode, hmarkup, takeWhile_stop h.word.1, takeWhile_stop h.word.2,
    takeWhile_stop h.number.1, takeWhile_stop h.number.2,
    head?_swap (v := v) (w := w) h (show '/' ∈ lookahead by decide) cs,
    head?_swap (v := v) (w := w) h (show '*' ∈ lookahead by decide) cs]
  exact .ite (.extent (lineCommentExtent_swap h cs) _ _) <| .ite (.extent hblock _ _) <|
    .ite (.extent (regexExtent_swap h false cs) _ _) <|
    .ite (.extent (stringExtent_swap h c cs) _ _) (.refl _ _)

/-- A step that ends before a character is the same with the other one in its place. -/
theorem step_local (d : Dialect) (pos : Nat) :
    (step d k pos c (cs ++ x :: v)).Local cs.length (step d k pos c (cs ++ y :: w)) := by
  unfold step
  cases k.mode with
  | code => exact stepCode_local h k c cs d pos
  | template => exact stepTemplate_local h k c cs
  | tag depth closing => exact stepTag_local h k c cs depth closing
  | children depth => exact stepChildren_local h k c cs depth

end Step

section Code

variable {d : Dialect} {k : Control} {pos : Nat} {c : Char} {cs : Text}

/-- Code is read in the mode for code only. -/
theorem mode_of_kind (h : (step d k pos c cs).kind = .code) : k.mode = .code := by
  unfold step at h
  cases hm : k.mode with
  | code => rfl
  | template =>
    simp only [hm, stepTemplate] at h
    split_ifs at h
  | tag depth closing =>
    simp only [hm, stepTag] at h
    split_ifs at h
  | children depth =>
    simp only [hm, stepChildren] at h
    split_ifs at h

/-- If the step reads code, no inert character lies in what it reads ahead. -/
def Step.OverWords (cs : Text) (s : Step) : Prop :=
  s.kind = .code → ∀ z ∈ cs.take s.extent, ¬ Inert z

namespace Step.OverWords

theorem ite {p : Prop} [Decidable p] {s t : Step} (hs : s.OverWords cs) (ht : t.OverWords cs) :
    (if p then s else t).OverWords cs := by
  split
  · exact hs
  · exact ht

theorem literal {kind : SpanKind} (h : kind ≠ .code) (e : Nat) (k : Control) :
    Step.OverWords cs ⟨kind, e, k⟩ := fun hk => absurd hk h

theorem single (k : Control) : Step.OverWords cs ⟨.code, 0, k⟩ := fun _ z hz => by simp at hz

theorem many {p : Char → Bool} (hp : ∀ z, Inert z → p z = false) (k : Control) :
    Step.OverWords cs ⟨.code, (cs.takeWhile p).length, k⟩ := by
  intro _ z hz hinert
  rw [← List.prefix_iff_eq_take.1 (List.takeWhile_prefix p)] at hz
  exact absurd (List.mem_takeWhile_imp hz) (by simp [hp z hinert])

end Step.OverWords

theorem stepCode_overWords : (stepCode d k pos c cs).OverWords cs :=
  .ite (.literal (by decide) _ _) <| .ite (.literal (by decide) _ _) <|
    .ite (.literal (by decide) _ _) <| .ite (.literal (by decide) _ _) <|
    .ite (.literal (by decide) _ _) <| .ite (.literal (by decide) _ _) <|
    .ite (.single _) <| .ite (.single _) <| .ite (.single _) <|
    .ite (.literal (by decide) _ _) <| .ite (.literal (by decide) _ _) <|
    .ite (.single _) <| .ite (.single _) <| .ite (.single _) <| .ite (.single _) <|
    .ite (.many (fun _ hz => hz.word) _) <| .ite (.many (fun _ hz => hz.number) _) (.single _)

/-- A token of code goes on with characters of words and numbers only. -/
theorem step_overWords : (step d k pos c cs).OverWords cs := by
  intro h
  have hm := mode_of_kind h
  revert h
  rw [step, hm]
  exact stepCode_overWords

end Code

/-- What reaches past a character takes it in. -/
theorem take_append_cons {cs : Text} {x : Char} (v : Text) {n : Nat} (h : cs.length < n) :
    (cs ++ x :: v).take n = cs ++ x :: v.take (n - cs.length - 1) := by
  rw [List.take_append, List.take_of_length_le (by omega), List.take_cons (by omega)]

/-- The text before an inert character of code is read the same way, up to the same memory, with
any inert character in its place. -/
theorem labels_split {d : Dialect} {x : Char} (hx : Inert x) {v : Text} {R : List Label} (A : Text)
    {k : Control} {pos : Nat} {L : List Label} (hL : L.map Prod.snd = A)
    (h : labels d k pos (A ++ x :: v) = L ++ (.code, x) :: R) :
    ∃ l at₂, l.mode = .code ∧ labels d l at₂ (x :: v) = (.code, x) :: R ∧
      ∀ y w, Inert y → labels d k pos (A ++ y :: w) = L ++ labels d l at₂ (y :: w) := by
  match A with
  | [] =>
    obtain rfl : L = [] := by simpa using hL
    refine ⟨k, pos, ?_, h, fun y w _ => rfl⟩
    rw [List.nil_append, labels] at h
    simp only [List.map_cons, List.cons_append, List.nil_append, List.cons.injEq,
      Prod.mk.injEq] at h
    exact mode_of_kind h.1.1
  | c :: cs =>
    obtain ⟨st, hst⟩ : ∃ st, step d k pos c (cs ++ x :: v) = st := ⟨_, rfl⟩
    by_cases he : st.extent ≤ cs.length
    · have hsplit : L.map Prod.snd = (c :: cs.take st.extent) ++ cs.drop st.extent := by
        rw [hL, List.cons_append, List.take_append_drop]
      obtain ⟨L₁, L₂, rfl, hL₁, hL₂⟩ := List.map_eq_append_iff.1 hsplit
      have hread (y : Char) (w : Text) (hy : Inert y) : labels d k pos (c :: cs ++ y :: w) =
          (c :: cs.take st.extent).map (Prod.mk st.kind) ++ labels d st.control
            (pos + Text.size (c :: cs.take st.extent)) (cs.drop st.extent ++ y :: w) := by
        have hsame : step d k pos c (cs ++ y :: w) = st := by
          rw [step_local (hx.swap hy) k c cs d pos (hst ▸ he), hst]
        rw [List.cons_append, labels, hsame]
        simp only [List.take_append_of_le_length he, List.drop_append_of_le_length he]
      rw [hread x v hx, List.append_assoc] at h
      have hlen : ((c :: cs.take st.extent).map (Prod.mk st.kind)).length = L₁.length := by
        rw [List.length_map, ← hL₁, List.length_map]
      obtain ⟨hfront, hrest⟩ := List.append_inj h hlen
      obtain ⟨l, at₂, hmode, hhere, hany⟩ := labels_split hx (cs.drop st.extent) hL₂ hrest
      refine ⟨l, at₂, hmode, hhere, fun y w hy => ?_⟩
      rw [hread y w hy, hfront, hany y w hy, List.append_assoc]
    · -- A token that reaches the character would be code, and would go on with it.
      have htake := take_append_cons (x := x) v (Nat.lt_of_not_le he)
      rw [List.cons_append, labels, hst] at h
      rw [htake, ← List.cons_append, List.map_append, List.append_assoc] at h
      have hlen : ((c :: cs).map (Prod.mk st.kind)).length = L.length := by
        rw [List.length_map, ← hL, List.length_map]
      obtain ⟨-, hrest⟩ := List.append_inj h hlen
      have hkind : st.kind = .code := by
        simp only [List.map_cons, List.cons_append, List.cons.injEq, Prod.mk.injEq] at hrest
        exact hrest.1.1
      have hmem : x ∈ (cs ++ x :: v).take st.extent := by simp [htake]
      subst hst
      exact absurd hx (step_overWords hkind x hmem)
termination_by A.length
decreasing_by
  simp only [List.length_drop, List.length_cons]
  omega

end SourceMend.Scope
