import SourceMend.Scope.Scanner

/-!
The points that a run of the scanner passes. What a run does from a point on depends on the text
that is left and on the memory, and not on the pieces recorded before.
-/
namespace SourceMend.Scope.State

variable {d : Dialect} {s t u : State}

/-- The run from the first point passes the second one. -/
inductive Passes (d : Dialect) : State → State → Prop
  | here (s : State) : Passes d s s
  | next {s t : State} : s.rest ≠ [] → Passes d (s.advance d) t → Passes d s t

theorem Passes.trans (h : Passes d s t) (h' : Passes d t u) : Passes d s u := by
  induction h with
  | here => exact h'
  | next hrest _ ih => exact .next hrest (ih h')

theorem run_of_rest_nil (h : s.rest = []) : s.run d = s := by
  rw [run, if_pos h]

theorem advance_of_rest_nil (h : s.rest = []) : s.advance d = s := by
  unfold advance
  split
  · rfl
  · next hcons => rw [hcons] at h; cases h

theorem rest_run (d : Dialect) (s : State) : (s.run d).rest = [] := by
  fun_induction run d s with
  | case1 s h => exact h
  | case2 s h ih => exact ih

theorem passes_run (d : Dialect) (s : State) : Passes d s (s.run d) := by
  fun_induction run d s with
  | case1 s h => exact .here s
  | case2 s h ih => exact .next h ih

theorem Passes.run_eq (h : Passes d s t) : s.run d = t.run d := by
  induction h with
  | here => rfl
  | next hrest _ ih => rw [run, if_neg hrest, ih]

theorem pos_lt_advance (h : s.rest ≠ []) : s.pos < (s.advance d).pos := by
  obtain ⟨rest, pos, pieces, k⟩ := s
  obtain ⟨c, cs, rfl⟩ := List.exists_cons_of_ne_nil h
  have hchar := Char.utf8Size_pos c
  simp only [advance, Text.size_cons]
  omega

theorem Passes.pos_le (h : Passes d s t) : s.pos ≤ t.pos := by
  induction h with
  | here => exact Nat.le_refl _
  | next hrest _ ih => exact Nat.le_trans (Nat.le_of_lt (pos_lt_advance hrest)) ih

/-- Between two points of a run some of the text is read, and the position is as far as its size. -/
theorem Passes.exists_read (h : Passes d s t) :
    ∃ read, s.rest = read ++ t.rest ∧ t.pos = s.pos + Text.size read := by
  induction h with
  | here => exact ⟨[], rfl, rfl⟩
  | @next s t hrest _ ih =>
    obtain ⟨read, hread, hpos⟩ := ih
    obtain ⟨rest, pos, pieces, k⟩ := s
    obtain ⟨c, cs, rfl⟩ := List.exists_cons_of_ne_nil hrest
    simp only [advance] at hread hpos
    refine ⟨c :: cs.take (step d k pos c cs).extent ++ read, ?_, ?_⟩
    · rw [List.append_assoc, ← hread, List.cons_append, List.take_append_drop]
    · rw [hpos, Text.size_append, Nat.add_assoc]

theorem pos_run (d : Dialect) (s : State) : (s.run d).pos = s.pos + Text.size s.rest := by
  obtain ⟨read, hread, hpos⟩ := (passes_run d s).exists_read
  rw [hpos, hread, rest_run, List.append_nil]

/-- A token that is read whole. -/
theorem Passes.token {k k' : Control} {pos : Nat} {kind : SpanKind} {c : Char} {word rest : Text}
    (h : step d k pos c (word ++ rest) = ⟨kind, word.length, k'⟩) :
    Passes d ⟨c :: word ++ rest, pos, [], k⟩
      ⟨rest, pos + Text.size (c :: word), [⟨kind, pos, c :: word⟩], k'⟩ := by
  have hadvance : advance d ⟨c :: word ++ rest, pos, [], k⟩ =
      ⟨rest, pos + Text.size (c :: word), [⟨kind, pos, c :: word⟩], k'⟩ := by
    simp only [advance, List.cons_append, h, List.take_left, List.drop_left]
  refine .next (by simp) ?_
  rw [hadvance]
  exact .here _

/-! More pieces behind those of a run -/

/-- The same point with more pieces recorded before. -/
def behind (s : State) (ps : List Piece) : State := { s with pieces := s.pieces ++ ps }

theorem advance_behind (d : Dialect) (s : State) (ps : List Piece) :
    (s.behind ps).advance d = (s.advance d).behind ps := by
  obtain ⟨rest, pos, pieces, k⟩ := s
  cases rest <;> rfl

theorem Passes.behind (h : Passes d s t) (ps : List Piece) :
    Passes d (s.behind ps) (t.behind ps) := by
  induction h with
  | here => exact .here _
  | next hrest _ ih => exact .next hrest (by rwa [advance_behind])

theorem run_behind (d : Dialect) (s : State) (ps : List Piece) :
    (s.behind ps).run d = (s.run d).behind ps := by
  rw [((passes_run d s).behind ps).run_eq]
  exact run_of_rest_nil (rest_run d s)

end SourceMend.Scope.State
