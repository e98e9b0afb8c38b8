import SourceMend.Proofs.Scope.Labels

/-!
Looking places up in a scope map. The spans follow each other without a gap, so that the kind at a
byte is that of the label there, and a range is code exactly when the span at each of its bytes is
code.
-/
namespace SourceMend

variable {pos : Nat} {spans : List Span} {L : List Scope.Label}

/-- The kind of the first span that ends behind byte `i`. -/
def Span.kindIn (spans : List Span) (i : Nat) : SpanKind :=
  ((spans.find? fun s => i < s.stop).map (·.kind)).getD .code

theorem Span.kindIn_cons (s : Span) (spans : List Span) (i : Nat) :
    kindIn (s :: spans) i = if i < s.stop then s.kind else kindIn spans i := by
  unfold kindIn
  by_cases h : i < s.stop <;> simp [h]

/-- The kind of the label that holds byte `i`; past the end everything is code. -/
def kindAtByte : List Scope.Label → Nat → SpanKind
  | [], _ => .code
  | (kind, c) :: L, i => if i < c.utf8Size then kind else kindAtByte L (i - c.utf8Size)

theorem kindAtByte_append_left (R : List Scope.Label) {i : Nat}
    (h : i < Text.size (L.map Prod.snd)) : kindAtByte (L ++ R) i = kindAtByte L i := by
  induction L generalizing i with
  | nil => simp at h
  | cons l L ih =>
    rw [List.cons_append, kindAtByte, kindAtByte]
    split
    · rfl
    · refine ih ?_
      rw [List.map_cons, Text.size_cons] at h
      omega

theorem kindAtByte_append_right (L R : List Scope.Label) (i : Nat) :
    kindAtByte (L ++ R) (Text.size (L.map Prod.snd) + i) = kindAtByte R i := by
  induction L with
  | nil => simp
  | cons l L ih =>
    rw [List.cons_append, kindAtByte, List.map_cons, Text.size_cons, if_neg (by omega), ← ih]
    congr 1
    omega

theorem kindAtByte_run (kind : SpanKind) (t : Text) {i : Nat} (h : i < Text.size t) :
    kindAtByte (t.map (Prod.mk kind)) i = kind := by
  induction t generalizing i with
  | nil => simp at h
  | cons c t ih =>
    rw [List.map_cons, kindAtByte]
    split
    · rfl
    · refine ih ?_
      rw [Text.size_cons] at h
      omega

theorem Covers.kindIn_eq (h : Covers pos spans L) (i : Nat) :
    Span.kindIn spans (pos + i) = kindAtByte L i := by
  induction h generalizing i with
  | nil => rfl
  | @cons kind pos t spans L _ _ _ ih =>
    rw [Span.kindIn_cons]
    split
    · next hlt =>
      have hin : i < Text.size t := by
        dsimp only at hlt
        omega
      rw [kindAtByte_append_left L (by rwa [Scope.map_snd_mk]), kindAtByte_run kind t hin]
    · next hge =>
      obtain ⟨n, rfl⟩ : ∃ n, i = Text.size t + n := by
        dsimp only at hge
        exact ⟨i - Text.size t, by omega⟩
      have hright := kindAtByte_append_right (t.map (Prod.mk kind)) L n
      rw [Scope.map_snd_mk] at hright
      rw [hright, ← ih, Nat.add_assoc]

theorem ScopeMap.kindAt_scan (text : Text) (d : Dialect) (i : Nat) :
    (ScopeMap.scan text d).kindAt i = kindAtByte (Scope.labels d {} 0 text) i := by
  have hkind := (covers_scan text d).kindIn_eq i
  rwa [Nat.zero_add] at hkind

/-- No span of those from byte `pos` on starts before it. -/
theorem Covers.takeWhile_eq_nil (h : Covers pos spans L) {b : Nat} (hb : b ≤ pos) :
    spans.takeWhile (·.start < b) = [] := by
  cases h with
  | nil => rfl
  | cons => exact List.takeWhile_cons_of_neg (by simpa using hb)

theorem Covers.all_code_iff (h : Covers pos spans L) {a b : Nat} (ha : pos ≤ a) (hab : a < b) :
    ((spans.dropWhile (·.stop ≤ a)).takeWhile (·.start < b)).all (·.kind = .code) = true ↔
      ∀ i, a ≤ i → i < b → Span.kindIn spans i = .code := by
  induction h generalizing a with
  | nil => simp [Span.kindIn]
  | @cons kind pos t spans L ht hhead hcov ih =>
    simp only [Span.kindIn_cons]
    by_cases hend : pos + Text.size t ≤ a
    · rw [List.dropWhile_cons_of_pos (by simpa using hend), ih hend hab]
      refine forall_congr' fun i => imp_congr_right fun hi => imp_congr_right fun _ => ?_
      rw [if_neg (by omega)]
    · rw [List.dropWhile_cons_of_neg (by simpa using hend),
        List.takeWhile_cons_of_pos (by simpa using Nat.lt_of_le_of_lt ha hab), List.all_cons,
        Bool.and_eq_true, decide_eq_true_iff]
      by_cases hb : b ≤ pos + Text.size t
      · rw [hcov.takeWhile_eq_nil hb]
        refine ⟨fun hk i _ hi => by rw [if_pos (by omega)]; exact hk.1, fun hall => ?_⟩
        have := hall a (Nat.le_refl _) hab
        rw [if_pos (by omega)] at this
        exact ⟨this, rfl⟩
      · have hrest := ih (a := pos + Text.size t) (Nat.le_refl _) (by omega)
        rw [hcov.dropWhile_eq (Nat.le_refl _)] at hrest
        rw [hrest]
        constructor
        · rintro ⟨hk, hall⟩ i _ hi
          split
          · exact hk
          · exact hall i (by omega) hi
        · intro hall
          refine ⟨?_, fun i hi hib => ?_⟩
          · have := hall a (Nat.le_refl _) hab
            rwa [if_pos (by omega)] at this
          · have := hall i (by omega) hib
            rwa [if_neg (by omega)] at this

/-- A range is code when the span at each of its bytes is. -/
theorem ScopeMap.isCode_iff (text : Text) (d : Dialect) {start stop : Nat} (h : start < stop) :
    (ScopeMap.scan text d).isCode start stop = true ↔
      ∀ i, start ≤ i → i < stop → (ScopeMap.scan text d).kindAt i = .code := by
  rw [isCode, if_neg (by omega)]
  exact (covers_scan text d).all_code_iff (Nat.zero_le _) h

end SourceMend
