import SourceMend.Diff.Compact
import SourceMend.Diff.Search

/-!
Scripts turn one text into another. The script that is searched for two lists of lines turns the
first into the second, and no slide of compaction changes what a script says of either text.
-/
namespace SourceMend.Diff

variable {α : Type}

/-- Read for the two sides the script gives these texts. -/
structure Turns (script : List (Edit α)) (old new : List α) : Prop where
  old : text .old script = old
  new : text .new script = new

namespace Turns

theorem keep (xs : List α) : Turns (keepRun xs) xs xs :=
  ⟨text_keepRun .old xs, text_keepRun .new xs⟩

theorem delete (xs : List α) : Turns [.only .old xs] xs [] := by
  constructor <;> simp [Edit.lines]

theorem insert (xs : List α) : Turns [.only .new xs] [] xs := by
  constructor <;> simp [Edit.lines]

theorem replace (xs ys : List α) : Turns [.only .old xs, .only .new ys] xs ys := by
  constructor <;> simp [Edit.lines]

theorem append {a b : List (Edit α)} {old new old' new' : List α} (ha : Turns a old new)
    (hb : Turns b old' new') : Turns (a ++ b) (old ++ old') (new ++ new') := by
  constructor
  · rw [text_append, ha.old, hb.old]
  · rw [text_append, ha.new, hb.new]

end Turns

variable [DecidableEq α]

/-- Two lists share their ends. -/
theorem drop_sharedEnd (xs ys : List α) :
    xs.drop (xs.length - sharedEnd xs ys) = ys.drop (ys.length - sharedEnd xs ys) := by
  have h := congrArg List.reverse (take_shared xs.reverse ys.reverse)
  rwa [List.take_reverse, List.take_reverse, List.reverse_reverse, List.reverse_reverse] at h

/-- A script for the middles of two lists, put between what they share at both ends, is a script for
the lists. -/
theorem Turns.between {old new : List α} {changes : List (Edit α)} :
    let front := shared old new
    let back := sharedEnd (new.drop front) (old.drop front)
    Turns changes ((old.drop front).take ((old.drop front).length - back))
        ((new.drop front).take ((new.drop front).length - back)) →
      Turns (keepRun (old.take front) ++ changes ++
        keepRun ((old.drop front).drop ((old.drop front).length - back))) old new := by
  intro front back h
  have hends := drop_sharedEnd (new.drop front) (old.drop front)
  have hall := ((keep (old.take front)).append h).append (keep
    ((old.drop front).drop ((old.drop front).length - back)))
  constructor
  · rw [hall.old, List.append_assoc, List.take_append_drop, List.take_append_drop]
  · rw [hall.new, ← hends, take_shared, List.append_assoc, List.take_append_drop,
      List.take_append_drop]

/-- The search finds a script from the first list to the second. -/
theorem turns_search (old new : List α) : Turns (search old new) old new := by
  induction hn : old.length + new.length using Nat.strongRecOn generalizing old new with
  | ind n ih =>
    rw [search]
    refine Turns.between ?_
    generalize hold : (old.drop (shared old new)).take _ = old2
    generalize hnew : (new.drop (shared old new)).take _ = new2
    have hold2 : old2.length ≤ old.length := by
      rw [← hold, List.length_take, List.length_drop]
      omega
    have hnew2 : new2.length ≤ new.length := by
      rw [← hnew, List.length_take, List.length_drop]
      omega
    split
    next hnone =>
      subst hnone
      split
      next hnone' => exact ⟨rfl, hnone'.symm⟩
      next => exact .insert new2
    next hsome =>
      split
      next hnone' => exact hnone' ▸ .delete old2
      next hsome' =>
        split
        next x y _ =>
          split
          next hcut =>
            -- Both halves are shorter, since the lists are not cut at one of their ends.
            have hpos := List.length_pos_iff.2 hsome
            have hpos' := List.length_pos_iff.2 hsome'
            have hfront : (old2.take x).length + (new2.take y).length < n := by
              rw [List.length_take, List.length_take]
              omega
            have hback : (old2.drop x).length + (new2.drop y).length < n := by
              rw [List.length_drop, List.length_drop]
              omega
            have hall := (ih _ hfront _ _ rfl).append (ih _ hback _ _ rfl)
            rwa [List.take_append_drop, List.take_append_drop] at hall
          next => exact .replace old2 new2
        next => exact .replace old2 new2

omit [DecidableEq α]

theorem text_keepBefore (side : Side) (xs : List α) (script : List (Edit α)) :
    text side (keepBefore xs script) = xs ++ text side script := by
  fun_cases keepBefore xs script with
  | case1 ys rest => simp [Edit.lines]
  | case2 => simp [Edit.lines]

theorem text_reverse_keepAfter (side : Side) (xs : List α) (script : List (Edit α)) :
    text side (keepAfter xs script).reverse = text side script.reverse ++ xs := by
  fun_cases keepAfter xs script with
  | case1 ys rest => simp [Edit.lines]
  | case2 => simp [Edit.lines]

/-- What is kept of a run is written down only if there is any. -/
theorem text_reverse_keepLeft (side : Side) (xs : List α) (script : List (Edit α)) :
    text side (if xs = [] then script else .keep xs :: script).reverse =
      text side script.reverse ++ xs := by
  split <;> simp_all [Edit.lines]

theorem text_keepLeft (side : Side) (xs : List α) (script : List (Edit α)) :
    text side (if xs = [] then script else .keep xs :: script) = xs ++ text side script := by
  split <;> simp_all [Edit.lines]

/-- Runs of different sides say nothing of each other's text, so they may pass each other. -/
theorem text_pass {side other : Side} (h : other ≠ side) (s : Side) (before : List (Edit α))
    (xs ys : List α) (after : List (Edit α)) :
    text s (before.reverse ++ .only side xs :: .only other ys :: after) =
      text s ((.only other ys :: before).reverse ++ .only side xs :: after) := by
  have hlines : (Edit.only side xs).lines s ++ (Edit.only other ys).lines s =
      (Edit.only other ys).lines s ++ (Edit.only side xs).lines s := by
    by_cases hs : side = s
    · subst hs
      simp [Edit.lines, h]
    · simp [Edit.lines, hs]
  simp only [List.reverse_cons, text_append, text_cons, text_nil, List.append_nil,
    List.append_assoc]
  rw [← List.append_assoc ((Edit.only side xs).lines s), hlines, List.append_assoc]

/-- The script with the run of a focus put back between the runs around it. -/
def Focus.script (side : Side) (f : Focus α) : List (Edit α) :=
  f.before.reverse ++ .only side f.lines :: f.after

variable [DecidableEq α]

/-- Sliding a run up says the same of both texts. -/
theorem text_slideUp (side s : Side) (before : List (Edit α)) (lines : List α)
    (after : List (Edit α)) :
    text s ((slideUp side before lines after).script side) =
      text s (before.reverse ++ .only side lines :: after) := by
  fun_induction slideUp side before lines after with
  | case1 lines after => rfl
  | case2 lines after rest n hn ih =>
    rw [ih]
    simp [Edit.lines]
  | case3 lines after ys rest n hn hys => rfl
  | case4 lines after ys rest n hn moved left ih =>
    have hys : left ++ moved = ys := List.take_append_drop _ _
    have hmoved : lines.drop (lines.length - n) = moved := drop_sharedEnd lines ys
    have hlines (more : List α) :
        lines.take (lines.length - n) ++ (moved ++ more) = lines ++ more := by
      rw [← hmoved, ← List.append_assoc, List.take_append_drop]
    rw [dite_eq_ite] at ih
    rw [ih, text_append, text_reverse_keepLeft, text_cons, text_keepBefore, ← hys]
    by_cases hs : side = s <;> simp [Edit.lines, hs, hlines]
  | case5 lines after ys rest ih =>
    rw [ih]
    by_cases hs : side = s <;> simp [Edit.lines, hs]
  | case6 lines after other ys rest hne ih =>
    exact ih.trans (text_pass hne s rest lines ys after)

/-- Sliding a run down says the same of both texts. -/
theorem text_slideDown (side s : Side) (before : List (Edit α)) (lines : List α)
    (after : List (Edit α)) :
    text s ((slideDown side before lines after).script side) =
      text s (before.reverse ++ .only side lines :: after) := by
  fun_induction slideDown side before lines after with
  | case1 before lines => rfl
  | case2 before lines rest n hn ih =>
    rw [ih]
    simp [Edit.lines]
  | case3 before lines ys rest n hn hys => rfl
  | case4 before lines ys rest n hn moved left ih =>
    have hys : moved ++ left = ys := List.take_append_drop _ _
    have hmoved : lines.take n = moved := take_shared lines ys
    have hlines (more : List α) : moved ++ (lines.drop n ++ more) = lines ++ more := by
      rw [← hmoved, ← List.append_assoc, List.take_append_drop]
    rw [dite_eq_ite] at ih
    rw [ih, text_append, text_reverse_keepAfter, text_cons, text_keepLeft, ← hys]
    by_cases hs : side = s <;> simp [Edit.lines, hs, hlines]
  | case5 before lines ys rest ih =>
    rw [ih]
    by_cases hs : side = s <;> simp [Edit.lines, hs]
  | case6 before lines other ys rest hne ih =>
    exact ih.trans (text_pass hne s before lines ys rest).symm

theorem text_settleFrom (side s : Side) (fuel : Nat) (before after : List (Edit α)) :
    text s (settleFrom side fuel before after) = text s (before.reverse ++ after) := by
  fun_induction settleFrom side fuel before after with
  | case1 before after => rfl
  | case2 fuel before => rw [List.append_nil]
  | case3 fuel before xs rest ih =>
    rw [ih, List.reverse_cons, List.append_assoc, List.singleton_append]
  | case4 fuel before xs rest up down ih =>
    rw [ih, List.reverse_cons, List.append_assoc, List.singleton_append]
    exact (text_slideDown side s _ _ _).trans (text_slideUp side s before xs rest)
  | case5 fuel before other xs rest hne ih =>
    rw [ih, List.reverse_cons, List.append_assoc, List.singleton_append]

/-- Compaction says the same of both texts. -/
theorem text_compact (side : Side) (script : List (Edit α)) :
    text side (compact script) = text side script := by
  have hsettle (s : Side) (script : List (Edit α)) :
      text side (settle s script) = text side script := text_settleFrom s side _ [] script
  rw [compact, hsettle, hsettle]

theorem Turns.compact {script : List (Edit α)} {old new : List α} (h : Turns script old new) :
    Turns (compact script) old new :=
  ⟨(text_compact .old script).trans h.old, (text_compact .new script).trans h.new⟩

end SourceMend.Diff
