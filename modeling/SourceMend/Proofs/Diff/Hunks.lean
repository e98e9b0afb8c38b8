import SourceMend.Diff.Hunk
import SourceMend.Proofs.Diff.Script

/-!
Hunks of a script. They stand one behind the other and are all the difference between the two texts:
outside of them both go on alike. So they can be applied to the old text, and give the new one.
-/
namespace SourceMend.Diff

variable {α : Type}

namespace Line

def value : Line α → α
  | .context x | .delete x | .insert x => x

/-- Marked lines, of which a side has all. -/
theorem filterMap_map_of_some {mark : α → Line α} {side : Line α → Option α}
    (h : ∀ x, side (mark x) = some x) (xs : List α) : (xs.map mark).filterMap side = xs := by
  have hsome : side ∘ mark = some := funext h
  rw [List.filterMap_map, hsome, List.filterMap_some]

/-- Marked lines, of which a side has none. -/
theorem filterMap_map_of_none {mark : α → Line α} {side : Line α → Option α}
    (h : ∀ x, side (mark x) = none) (xs : List α) : (xs.map mark).filterMap side = [] := by
  refine List.filterMap_eq_nil_iff.2 fun l hl => ?_
  obtain ⟨x, -, rfl⟩ := List.mem_map.1 hl
  exact h x

theorem filterMap_old?_context (xs : List α) : (xs.map Line.context).filterMap Line.old? = xs :=
  filterMap_map_of_some (fun _ => rfl) xs

theorem filterMap_new?_context (xs : List α) : (xs.map Line.context).filterMap Line.new? = xs :=
  filterMap_map_of_some (fun _ => rfl) xs

end Line

namespace Hunk

theorem old_mk (i j : Nat) (lines : List (Line α)) :
    (Hunk.mk i j lines).old = lines.filterMap Line.old? := rfl

theorem new_mk (i j : Nat) (lines : List (Line α)) :
    (Hunk.mk i j lines).new = lines.filterMap Line.new? := rfl

/-- The lines of a hunk are lines of one of its sides. -/
theorem value_mem {h : Hunk α} {l : Line α} (hl : l ∈ h.lines) :
    l.value ∈ h.old ∨ l.value ∈ h.new := by
  cases l with
  | context x => exact .inl (List.mem_filterMap.2 ⟨_, hl, rfl⟩)
  | delete x => exact .inl (List.mem_filterMap.2 ⟨_, hl, rfl⟩)
  | insert x => exact .inr (List.mem_filterMap.2 ⟨_, hl, rfl⟩)

end Hunk

theorem Change.filterMap_old?_lines (c : Change α) :
    c.lines.filterMap Line.old? = c.removed := by
  rw [Change.lines, List.filterMap_append, Line.filterMap_map_of_some fun _ => rfl,
    Line.filterMap_map_of_none fun _ => rfl, List.append_nil]

theorem Change.filterMap_new?_lines (c : Change α) :
    c.lines.filterMap Line.new? = c.added := by
  rw [Change.lines, List.filterMap_append, Line.filterMap_map_of_none fun _ => rfl,
    Line.filterMap_map_of_some fun _ => rfl, List.nil_append]

/-- The hunks are the difference between two texts, of which `old` and `new` are left behind the
first `i` and `j` lines. Each hunk starts behind lines that both have, and none but the last is
empty on a side. -/
inductive Covers : (i j : Nat) → List (Hunk α) → (old new : List α) → Prop
  | same (i j : Nat) (rest : List α) : Covers i j [] rest rest
  | hunk {i j : Nat} {hs : List (Hunk α)} {old new : List α} (kept : List α) (h : Hunk α)
      (oldBefore : h.oldBefore = i + kept.length) (newBefore : h.newBefore = j + kept.length)
      (ne_nil : hs ≠ [] → h.old ≠ [] ∧ h.new ≠ [])
      (later : Covers (h.oldBefore + h.old.length) (h.newBefore + h.new.length) hs old new) :
      Covers i j (h :: hs) (kept ++ (h.old ++ old)) (kept ++ (h.new ++ new))

namespace Covers

variable {i j : Nat} {hs : List (Hunk α)} {old new : List α}

/-- Hunks start behind the lines that are done. -/
theorem le_before (h : Covers i j hs old new) :
    ∀ k ∈ hs, i ≤ k.oldBefore ∧ j ≤ k.newBefore := by
  induction h with
  | same => exact fun _ hk => absurd hk List.not_mem_nil
  | hunk kept h hold hnew _ _ ih =>
    refine List.forall_mem_cons.2 ⟨⟨by omega, by omega⟩, fun k hk => ?_⟩
    obtain ⟨hkold, hknew⟩ := ih k hk
    exact ⟨by omega, by omega⟩

/-- Of two hunks the later one starts behind the end of the earlier one, on both sides. -/
theorem pairwise (h : Covers i j hs old new) :
    hs.Pairwise fun a b => a.oldBefore < b.oldBefore ∧ a.newBefore < b.newBefore ∧
      a.oldBefore + a.old.length ≤ b.oldBefore ∧ a.newBefore + a.new.length ≤ b.newBefore := by
  induction h with
  | same => exact .nil
  | hunk kept h _ _ hne hlater ih =>
    refine .cons (fun k hk => ?_) ih
    obtain ⟨hkold, hknew⟩ := hlater.le_before k hk
    obtain ⟨hold, hnew⟩ := hne (List.ne_nil_of_mem hk)
    have := List.length_pos_iff.2 hold
    have := List.length_pos_iff.2 hnew
    exact ⟨by omega, by omega, hkold, hknew⟩

/-- Each hunk shows what stands in the two texts at the place that it names. -/
theorem prefix_drop (h : Covers i j hs old new) :
    ∀ k ∈ hs, k.old <+: old.drop (k.oldBefore - i) ∧ k.new <+: new.drop (k.newBefore - j) := by
  induction h with
  | same => exact fun _ hk => absurd hk List.not_mem_nil
  | @hunk i j hs old new kept h hold hnew _ hlater ih =>
    refine List.forall_mem_cons.2 ⟨⟨?_, ?_⟩, fun k hk => ?_⟩
    · rw [hold, Nat.add_sub_cancel_left, List.drop_left]
      exact List.prefix_append ..
    · rw [hnew, Nat.add_sub_cancel_left, List.drop_left]
      exact List.prefix_append ..
    · obtain ⟨hkold, hknew⟩ := hlater.le_before k hk
      obtain ⟨hpold, hpnew⟩ := ih k hk
      have hdrop (a b c : List α) (n : Nat) :
          (a ++ (b ++ c)).drop (a.length + b.length + n) = c.drop n := by
        rw [← List.append_assoc, ← List.length_append, ← List.drop_drop, List.drop_left]
      have hi : k.oldBefore - i =
          kept.length + h.old.length + (k.oldBefore - (h.oldBefore + h.old.length)) := by omega
      have hj : k.newBefore - j =
          kept.length + h.new.length + (k.newBefore - (h.newBefore + h.new.length)) := by omega
      rw [hi, hj, hdrop, hdrop]
      exact ⟨hpold, hpnew⟩

/-- Hunks that are the difference of two texts turn the first into the second. -/
theorem applyFrom_eq [DecidableEq α] (h : Covers i j hs old new) :
    applyFrom i old hs = some new := by
  induction h with
  | same => rfl
  | @hunk i j hs old new kept h hold _ _ _ ih =>
    have hskip : h.oldBefore - i = kept.length := by omega
    rw [applyFrom, hskip]
    rw [List.drop_left, List.take_left, List.drop_left, List.take_left, ih, if_pos]
    · simp
    · exact ⟨by omega, by simp, rfl⟩

end Covers

/-- The old lines of some changes and of the kept lines behind them. -/
def oldLines (changes : List (Change α)) (tail : List α) : List α :=
  changes.flatMap (fun c => c.gap ++ c.removed) ++ tail

def newLines (changes : List (Change α)) (tail : List α) : List α :=
  changes.flatMap (fun c => c.gap ++ c.added) ++ tail

theorem lines_changesFrom (gap removed added : List α) (script : List (Edit α)) :
    let changes := changesFrom gap removed added script
    oldLines changes.1 changes.2 = gap ++ (removed ++ text .old script) ∧
      newLines changes.1 changes.2 = gap ++ (added ++ text .new script) := by
  fun_induction changesFrom gap removed added script with
  | case1 gap removed added hnone => simp_all [oldLines, newLines]
  | case2 gap removed added hsome => simp [oldLines, newLines]
  | case3 gap removed added xs rest hnone ih => simp_all [Edit.lines]
  | case4 gap removed added xs rest hsome later tail hlater ih =>
    simp_all [oldLines, newLines, Edit.lines]
  | case5 gap removed added xs rest ih => simp_all [Edit.lines]
  | case6 gap removed added xs rest ih => simp_all [Edit.lines]

/-- The body of a hunk whose start is done, and the hunks behind it, are the difference from there
on. -/
def Finishes (oldPos newPos : Nat) (body : List (Line α)) (hs : List (Hunk α))
    (old new : List α) : Prop :=
  ∃ oldRest newRest, old = body.filterMap Line.old? ++ oldRest ∧
    new = body.filterMap Line.new? ++ newRest ∧
    (hs ≠ [] → body.filterMap Line.old? ≠ [] ∧ body.filterMap Line.new? ≠ []) ∧
    Covers (oldPos + (body.filterMap Line.old?).length) (newPos + (body.filterMap Line.new?).length)
      hs oldRest newRest

namespace Finishes

variable {oldPos newPos : Nat} {body : List (Line α)} {hs : List (Hunk α)} {old new : List α}

/-- Kept lines end a hunk. -/
theorem kept (i j : Nat) (xs : List α) (hne : hs ≠ [] → xs ≠ [])
    (h : Covers (i + xs.length) (j + xs.length) hs old new) :
    Finishes i j (xs.map .context) hs (xs ++ old) (xs ++ new) := by
  have hold := Line.filterMap_old?_context xs
  have hnew := Line.filterMap_new?_context xs
  refine ⟨old, new, by rw [hold], by rw [hnew], fun hlater => ?_, ?_⟩
  · rw [hold, hnew]
    exact ⟨hne hlater, hne hlater⟩
  · rw [hold, hnew]
    exact h

/-- More lines in front of the body. -/
theorem prepend {i j : Nat} {front : List (Line α)} {xs ys : List α}
    (hold : front.filterMap Line.old? = xs) (hnew : front.filterMap Line.new? = ys)
    (h : Finishes (i + xs.length) (j + ys.length) body hs old new) :
    Finishes i j (front ++ body) hs (xs ++ old) (ys ++ new) := by
  obtain ⟨oldRest, newRest, rfl, rfl, hpos, hcovers⟩ := h
  subst hold hnew
  refine ⟨oldRest, newRest, by simp, by simp, fun hne => ?_, ?_⟩
  · obtain ⟨hold, hnew⟩ := hpos hne
    simp [hold, hnew]
  · simpa [Nat.add_assoc] using hcovers

/-- A hunk starts with the last of the lines that are kept before it. -/
theorem behind {i j : Nat} (gap : List α) (h : Finishes oldPos newPos body hs old new)
    (hi : oldPos = i + gap.length) (hj : newPos = j + gap.length) :
    Covers i j (Hunk.behind gap oldPos newPos body :: hs) (gap ++ old) (gap ++ new) := by
  obtain ⟨oldRest, newRest, rfl, rfl, hne, hcovers⟩ := h
  generalize hkept : gap.take (gap.length - contextSize) = kept
  generalize hlead : gap.drop (gap.length - contextSize) = lead
  have hgap : kept ++ lead = gap := by rw [← hkept, ← hlead, List.take_append_drop]
  have hlength : kept.length + lead.length = gap.length := by rw [← hgap, List.length_append]
  generalize hk : Hunk.behind gap oldPos newPos body = k
  simp only [Hunk.behind, hlead] at hk
  have hold : k.old = lead ++ body.filterMap Line.old? := by
    rw [← hk, Hunk.old_mk, List.filterMap_append, Line.filterMap_old?_context]
  have hnew : k.new = lead ++ body.filterMap Line.new? := by
    rw [← hk, Hunk.new_mk, List.filterMap_append, Line.filterMap_new?_context]
  have holdBefore : k.oldBefore = i + kept.length := by
    rw [← hk]
    dsimp only
    omega
  have hnewBefore : k.newBefore = j + kept.length := by
    rw [← hk]
    dsimp only
    omega
  have hi' : k.oldBefore + k.old.length = oldPos + (body.filterMap Line.old?).length := by
    rw [holdBefore, hold, List.length_append]
    omega
  have hj' : k.newBefore + k.new.length = newPos + (body.filterMap Line.new?).length := by
    rw [hnewBefore, hnew, List.length_append]
    omega
  have hoverall := Covers.hunk kept k holdBefore hnewBefore (fun h => by simp [hold, hnew, hne h])
    (hi' ▸ hj' ▸ hcovers)
  simpa only [hold, hnew, ← hgap, List.append_assoc] using hoverall

end Finishes

/-- Of a long gap only the second half matters to the hunk behind it. -/
theorem Hunk.behind_drop {gap : List α} (h : 2 * contextSize ≤ gap.length) (oldPos newPos : Nat)
    (body : List (Line α)) :
    Hunk.behind gap oldPos newPos body = .behind (gap.drop contextSize) oldPos newPos body := by
  have hlead : gap.drop (gap.length - contextSize) =
      (gap.drop contextSize).drop ((gap.drop contextSize).length - contextSize) := by
    rw [List.drop_drop, List.length_drop]
    congr 1
    omega
  rw [behind, behind, hlead]

/-- From the change `c` on, the rest of its hunk and the later hunks are the difference. -/
theorem finishes_spread (tail : List α) (oldPos newPos : Nat) (c : Change α)
    (later : List (Change α)) :
    let rest := spread tail oldPos newPos c later
    Finishes oldPos newPos rest.1 rest.2 (c.removed ++ oldLines later tail)
      (c.added ++ newLines later tail) := by
  induction later generalizing oldPos newPos c with
  | nil =>
    have htail : Finishes (oldPos + c.removed.length) (newPos + c.added.length)
        ((tail.take contextSize).map .context) [] tail tail := by
      have hend := Covers.same (oldPos + c.removed.length + (tail.take contextSize).length)
        (newPos + c.added.length + (tail.take contextSize).length) (tail.drop contextSize)
      have hkept := Finishes.kept _ _ _ (fun h => absurd rfl h) hend
      rwa [List.take_append_drop] at hkept
    exact htail.prepend c.filterMap_old?_lines c.filterMap_new?_lines
  | cons d later ih =>
    have hlater := ih (oldPos + c.removed.length + d.gap.length)
      (newPos + c.added.length + d.gap.length) d
    have hold : oldLines (d :: later) tail = d.gap ++ (d.removed ++ oldLines later tail) := by
      simp [oldLines]
    have hnew : newLines (d :: later) tail = d.gap ++ (d.added ++ newLines later tail) := by
      simp [newLines]
    rw [spread, hold, hnew]
    dsimp only at hlater ⊢
    generalize spread tail _ _ d later = rest at hlater ⊢
    split
    next hjoins =>
      have hgap := hlater.prepend (Line.filterMap_old?_context d.gap)
        (Line.filterMap_new?_context d.gap)
      have hall := hgap.prepend c.filterMap_old?_lines c.filterMap_new?_lines
      rwa [← List.append_assoc c.lines] at hall
    next hapart =>
      have hlong : 2 * contextSize ≤ d.gap.length := by
        simp only [joins, decide_eq_true_eq] at hapart
        omega
      have hsize : contextSize = 3 := rfl
      generalize d.gap = gap at hlater hlong ⊢
      have hshown : (gap.take contextSize).length + (gap.drop contextSize).length = gap.length := by
        rw [← List.length_append, List.take_append_drop]
      have hne : gap.take contextSize ≠ [] := by
        refine List.length_pos_iff.1 ?_
        rw [List.length_take]
        omega
      -- The lines behind the change end its hunk; the rest of the gap lies before the next one.
      have hend := Finishes.kept (oldPos + c.removed.length) (newPos + c.added.length)
        (gap.take contextSize) (fun _ => hne)
        (hlater.behind (gap.drop contextSize) (by omega) (by omega))
      have hgap (xs : List α) :
          gap.take contextSize ++ (gap.drop contextSize ++ xs) = gap ++ xs := by
        rw [← List.append_assoc, List.take_append_drop]
      rw [hgap, hgap, ← Hunk.behind_drop hlong] at hend
      exact hend.prepend c.filterMap_old?_lines c.filterMap_new?_lines

/-- The hunks of a script are the difference of its two texts. -/
theorem Turns.covers {script : List (Edit α)} {old new : List α} (h : Turns script old new) :
    Covers 0 0 (hunks script) old new := by
  obtain ⟨hold, hnew⟩ := lines_changesFrom [] [] [] script
  simp only [List.nil_append, h.old, h.new] at hold hnew
  rw [hunks, ← hold, ← hnew]
  split
  next gap hchanges =>
    rw [hchanges]
    exact .same ..
  next c later tail hchanges =>
    rw [hchanges]
    simpa [oldLines, newLines] using
      (finishes_spread tail c.gap.length c.gap.length c later).behind c.gap (Nat.zero_add _).symm
        (Nat.zero_add _).symm

end SourceMend.Diff
