import Mathlib.Algebra.BigOperators.Group.List.Basic
import Mathlib.Data.UInt
import SourceMend.Tally

/-!
Counts of tallies. Adding to one name changes the count of that name only, and merging two tallies
adds their counts name by name.
-/
namespace SourceMend.Tally

theorem lookup_cons_of_ne {key : String} {e : String × UInt64} (h : key ≠ e.1)
    (es : List (String × UInt64)) : (e :: es).lookup key = es.lookup key := by
  rw [List.lookup_cons, beq_false_of_ne h]

theorem lookup_alterEntries (key other : String) (f : Option UInt64 → UInt64)
    {es : List (String × UInt64)} (h : es.Pairwise fun a b => a.1 < b.1) :
    (alterEntries key f es).lookup other =
      if other = key then some (f (es.lookup key)) else es.lookup other := by
  induction es with
  | nil => by_cases ho : other = key <;> simp [alterEntries, ho]
  | cons e rest ih =>
    obtain ⟨k, n⟩ := e
    obtain ⟨hk, hr⟩ := List.pairwise_cons.1 h
    simp only [alterEntries]
    split
    · next hlt =>
      -- The names rise, so a name before the first one has no entry.
      have hnone : ((k, n) :: rest).lookup key = none := by
        refine List.lookup_eq_none_iff.2 fun e he => ?_
        have hlt' : key < e.1 := by
          rcases List.mem_cons.1 he with rfl | he
          · exact hlt
          · exact String.lt_trans hlt (hk e he)
        simpa using fun h : key = e.1 => String.lt_irrefl _ (h ▸ hlt')
      rw [hnone]
      by_cases ho : other = key
      · simp [ho]
      · rw [lookup_cons_of_ne ho, if_neg ho]
    · next hlt =>
      split
      · next heq =>
        subst heq
        by_cases ho : other = key
        · simp [ho]
        · rw [lookup_cons_of_ne ho, if_neg ho, lookup_cons_of_ne ho]
      · next hne =>
        have hk' : ((k, n) :: rest).lookup key = rest.lookup key := lookup_cons_of_ne hne rest
        rw [hk']
        by_cases ho : other = k
        · simp [ho, Ne.symm hne]
        · rw [lookup_cons_of_ne ho, lookup_cons_of_ne ho, ih hr]

theorem get?_add (t : Tally) (key other : String) (n : UInt64) :
    (t.add key n).get? other =
      if other = key then some ((t.get? key).getD 0 + n) else t.get? other :=
  lookup_alterEntries key other _ t.sorted

/-- The count of a name; a name without an entry counts zero. -/
def count (t : Tally) (key : String) : UInt64 := (t.get? key).getD 0

/-- Whether a name has an entry. -/
def Has (t : Tally) (key : String) : Prop := (t.get? key).isSome = true

theorem count_add (t : Tally) (key other : String) (n : UInt64) :
    (t.add key n).count other = t.count other + if other = key then n else 0 := by
  rw [count, get?_add]
  split
  · next h => simp [count, h]
  · simp [count]

theorem has_add (t : Tally) (key other : String) (n : UInt64) :
    (t.add key n).Has other ↔ other = key ∨ t.Has other := by
  rw [Has, get?_add]
  split
  · next h => simp [h]
  · next h => simp [h, Has]

/-- Merging in some entries adds up what they say of a name. -/
theorem count_foldl_add (es : List (String × UInt64)) (t : Tally) (key : String) :
    (es.foldl (fun t (k, n) => t.add k n) t).count key =
      t.count key + (es.map fun e => if key = e.1 then e.2 else 0).sum := by
  induction es generalizing t with
  | nil => simp
  | cons e es ih =>
    rw [List.foldl_cons, ih, count_add, List.map_cons, List.sum_cons, UInt64.add_assoc]

theorem has_foldl_add (es : List (String × UInt64)) (t : Tally) (key : String) :
    (es.foldl (fun t (k, n) => t.add k n) t).Has key ↔ t.Has key ∨ ∃ e ∈ es, key = e.1 := by
  induction es generalizing t with
  | nil => simp
  | cons e es ih =>
    rw [List.foldl_cons, ih, has_add]
    simp only [List.mem_cons, exists_eq_or_imp]
    tauto

/-- In a tally a name comes once, so its count is all that its entries say of it. -/
theorem sum_entries {es : List (String × UInt64)} (h : es.Pairwise fun a b => a.1 < b.1)
    (key : String) :
    (es.map fun e => if key = e.1 then e.2 else 0).sum = (es.lookup key).getD 0 := by
  induction es with
  | nil => rfl
  | cons e es ih =>
    obtain ⟨hk, hr⟩ := List.pairwise_cons.1 h
    rw [List.map_cons, List.sum_cons, ih hr]
    by_cases he : key = e.1
    · have hnone : es.lookup key = none := by
        refine List.lookup_eq_none_iff.2 fun e' he' => ?_
        simpa using fun h : key = e'.1 => String.lt_irrefl _ (h ▸ he ▸ hk e' he')
      rw [hnone, if_pos he, he, List.lookup_cons_self]
      simp
    · rw [lookup_cons_of_ne he, if_neg he, UInt64.zero_add]

theorem count_merge (t u : Tally) (key : String) :
    (t.merge u).count key = t.count key + u.count key := by
  rw [merge, count_foldl_add, sum_entries u.sorted]
  rfl

theorem has_merge (t u : Tally) (key : String) : (t.merge u).Has key ↔ t.Has key ∨ u.Has key := by
  rw [merge, has_foldl_add]
  refine or_congr_right ?_
  simp only [Has, get?, List.lookup_isSome_iff]
  exact exists_congr fun e => by simp

theorem not_has_empty (key : String) : ¬ empty.Has key := by simp [Has, get?, empty]

end SourceMend.Tally
