import Mathlib.Data.List.TakeWhile
import SourceMend.Text.Lines

/-!
Lines of a text. A character stands behind the lines before its own, which are as many as the line
feeds before it, and behind the start of that line.
-/
namespace SourceMend.Text

/-- How many characters stand before a place on its line. -/
def column (before : Text) : Nat := (before.reverse.takeWhile (· ≠ '\n')).length

theorem column_cons (c : Char) (cs : Text) :
    column (c :: cs) = if c = '\n' ∨ '\n' ∈ cs then column cs else column cs + 1 := by
  rw [column, column, List.reverse_cons]
  by_cases hcs : '\n' ∈ cs
  · rw [if_pos (.inr hcs), List.takeWhile_append, if_neg]
    intro hall
    have hkept := List.takeWhile_eq_self_iff.1 ((List.takeWhile_prefix _).eq_of_length hall)
    simpa using hkept '\n' (List.mem_reverse.2 hcs)
  · have hplain : ∀ d ∈ cs.reverse, decide (d ≠ '\n') = true := by
      intro d hd
      simpa using fun he : d = '\n' => hcs (he ▸ List.mem_reverse.1 hd)
    rw [List.takeWhile_append_of_pos hplain, List.takeWhile_eq_self_iff.2 hplain]
    by_cases hc : c = '\n'
    · simp [hc]
    · simp [hc, hcs]

theorem exists_splitLines {t : Text} (h : t ≠ []) :
    ∃ first rest, splitLines t = first :: rest ∧ first ≠ [] := by
  induction t with
  | nil => contradiction
  | cons c cs ih =>
    rw [splitLines]
    split
    · exact ⟨_, _, rfl, by simp⟩
    · split
      · exact ⟨_, _, rfl, by simp⟩
      · exact ⟨_, _, rfl, by simp⟩

theorem splitLines_cons_of_ne {c : Char} (hc : c ≠ '\n') {t first : Text} {rest : List Text}
    (h : splitLines t = first :: rest) : splitLines (c :: t) = (c :: first) :: rest := by
  rw [splitLines, if_neg hc, h]

/-- A line has no line feed except at its end. -/
def IsLine (line : Text) : Prop := ∃ body, '\n' ∉ body ∧ (line = body ∨ line = body ++ ['\n'])

theorem isLine_of_mem_splitLines {t line : Text} (h : line ∈ t.splitLines) : IsLine line := by
  induction t generalizing line with
  | nil => contradiction
  | cons c cs ih =>
    rw [splitLines] at h
    split at h
    next hc =>
      rcases List.mem_cons.1 h with rfl | h
      · exact ⟨[], List.not_mem_nil, .inr (by rw [hc]; rfl)⟩
      · exact ih h
    next hc =>
      split at h
      · obtain rfl := List.mem_singleton.1 h
        exact ⟨[c], by simpa using Ne.symm hc, .inl rfl⟩
      next first rest hsplit =>
        rcases List.mem_cons.1 h with rfl | h
        · obtain ⟨body, hbody, hfirst⟩ := ih (hsplit ▸ List.mem_cons_self)
          refine ⟨c :: body, by simp [hbody, Ne.symm hc], ?_⟩
          exact hfirst.imp (congrArg (c :: ·)) (congrArg (c :: ·))
        · exact ih (hsplit ▸ List.mem_cons_of_mem _ h)

/-- What stands before a character: the lines before its own, as many as there are line feeds, and
the start of that line. -/
theorem exists_line (before : Text) {rest : Text} (hrest : rest ≠ []) :
    ∃ front line back, splitLines (before ++ rest) = front ++ line :: back ∧
      front.length = before.count '\n' ∧ column before < line.length ∧
      before = front.flatten ++ line.take (column before) := by
  induction before with
  | nil =>
    obtain ⟨first, others, hsplit, hne⟩ := exists_splitLines hrest
    exact ⟨[], first, others, hsplit, rfl, List.length_pos_iff.2 hne, rfl⟩
  | cons c cs ih =>
    obtain ⟨front, line, back, hsplit, hcount, hcol, hcs⟩ := ih
    rw [column_cons, List.cons_append]
    by_cases hc : c = '\n'
    · rw [if_pos (.inl hc)]
      refine ⟨[c] :: front, line, back, ?_, ?_, hcol, ?_⟩
      · rw [splitLines, if_pos hc, hsplit, List.cons_append]
      · rw [hc, List.count_cons_self, List.length_cons, hcount]
      · rw [List.flatten_cons, List.append_assoc, ← hcs, List.singleton_append]
    · rw [List.count_cons_of_ne hc]
      cases front with
      | nil =>
        have hplain : '\n' ∉ cs := List.count_eq_zero.1 hcount.symm
        rw [if_neg (not_or.2 ⟨hc, hplain⟩)]
        refine ⟨[], c :: line, back, splitLines_cons_of_ne hc hsplit, hcount,
          Nat.succ_lt_succ hcol, ?_⟩
        rw [List.take_succ_cons, List.flatten_nil, List.nil_append]
        exact congrArg _ hcs
      | cons first front =>
        have hfeed : '\n' ∈ cs := List.count_pos_iff.1 (by rw [← hcount]; simp)
        rw [if_pos (.inr hfeed)]
        exact ⟨(c :: first) :: front, line, back, splitLines_cons_of_ne hc hsplit, hcount, hcol,
          congrArg _ hcs⟩

end SourceMend.Text
