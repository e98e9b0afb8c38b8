import Mathlib.Algebra.BigOperators.Group.Finset.Basic
import Mathlib.Algebra.Order.BigOperators.Group.List
import Mathlib.Algebra.Order.Group.Nat
import Mathlib.Data.List.Nodup
import Mathlib.Data.List.Perm.Basic
import SourceMend.Proofs.Tally

/-!
Totals of tallies. A tally is known by its names and counts, so the order in which tallies are
merged does not matter; and as long as a word holds them all, merging loses no count.
-/
namespace SourceMend.Tally

/-! Entries and counts -/

theorem get?_eq_some {t : Tally} {key : String} {n : UInt64} :
    t.get? key = some n ↔ (key, n) ∈ t.entries := by
  rw [get?, List.lookup_eq_some_iff]
  constructor
  · rintro ⟨front, back, hsplit, -⟩
    rw [hsplit]
    simp
  · intro hmem
    obtain ⟨front, back, hsplit⟩ := List.append_of_mem hmem
    refine ⟨front, back, hsplit, fun e he => ?_⟩
    -- The names rise, so those in front of this one are others.
    have hlt : e.1 < key :=
      (List.pairwise_append.1 (hsplit ▸ t.sorted)).2.2 e he (key, n) List.mem_cons_self
    exact bne_iff_ne.2 fun heq => String.lt_irrefl _ (heq ▸ hlt)

theorem has_iff {t : Tally} {key : String} : t.Has key ↔ key ∈ t.entries.map (·.1) := by
  simp [Has, Option.isSome_iff_exists, get?_eq_some]

theorem nodup_keys (t : Tally) : (t.entries.map (·.1)).Nodup := by
  refine List.pairwise_map.2 (t.sorted.imp ?_)
  intro e e' hlt heq
  exact String.lt_irrefl _ (heq ▸ hlt)

theorem count_of_mem {t : Tally} {e : String × UInt64} (h : e ∈ t.entries) :
    t.count e.1 = e.2 := by
  rw [count, get?_eq_some.2 h, Option.getD_some]

theorem count_of_not_has {t : Tally} {key : String} (h : ¬ t.Has key) : t.count key = 0 := by
  rw [count, Option.not_isSome_iff_eq_none.1 h, Option.getD_none]

/-- Tallies with the same names and counts are equal. -/
theorem ext_count {t u : Tally} (hhas : ∀ key, t.Has key ↔ u.Has key)
    (hcount : ∀ key, t.count key = u.count key) : t = u := by
  have hget (key : String) : t.get? key = u.get? key := by
    by_cases h : t.Has key
    · obtain ⟨n, hn⟩ := Option.isSome_iff_exists.1 h
      obtain ⟨m, hm⟩ := Option.isSome_iff_exists.1 ((hhas key).1 h)
      have hnm : n = m := by simpa [count, hn, hm] using hcount key
      rw [hn, hm, hnm]
    · rw [Option.not_isSome_iff_eq_none.1 h,
        Option.not_isSome_iff_eq_none.1 fun hu => h ((hhas key).2 hu)]
  have hmem (e : String × UInt64) : e ∈ t.entries ↔ e ∈ u.entries := by
    rw [← Prod.mk.eta (p := e), ← get?_eq_some, hget, get?_eq_some]
  have hperm : t.entries.Perm u.entries :=
    (List.perm_ext_iff_of_nodup t.nodup_keys.of_map u.nodup_keys.of_map).2 hmem
  have hentries : t.entries = u.entries :=
    hperm.eq_of_pairwise (fun _ _ _ _ hlt hgt => absurd hgt (String.lt_asymm hlt)) t.sorted u.sorted
  cases t
  cases u
  simpa using hentries

theorem merge_right_comm (t u v : Tally) : (t.merge u).merge v = (t.merge v).merge u :=
  ext_count (fun key => by simp only [has_merge, or_right_comm]) fun key => by
    simp only [count_merge, UInt64.add_assoc, UInt64.add_comm (u.count key)]

/-! Totals -/

/-- Words whose sum is one add up as numbers. -/
theorem toNat_sum {ns : List UInt64} (h : (ns.map UInt64.toNat).sum < UInt64.size) :
    ns.sum.toNat = (ns.map UInt64.toNat).sum := by
  induction ns with
  | nil => rfl
  | cons n ns ih =>
    rw [List.map_cons, List.sum_cons] at h ⊢
    rw [List.sum_cons, UInt64.toNat_add, ih (by omega), Nat.mod_eq_of_lt h]

/-- All counts together. -/
def total (t : Tally) : Nat := (t.entries.map (·.2.toNat)).sum

theorem count_le_total (t : Tally) (key : String) : (t.count key).toNat ≤ t.total := by
  by_cases h : t.Has key
  · obtain ⟨n, hn⟩ := Option.isSome_iff_exists.1 h
    rw [count, hn]
    exact List.le_sum_of_mem (List.mem_map_of_mem (get?_eq_some.1 hn))
  · rw [count_of_not_has h]
    exact Nat.zero_le _

theorem sum_alterEntries {key : String} {n : UInt64} {es : List (String × UInt64)}
    (h : ((es.lookup key).getD 0).toNat + n.toNat < UInt64.size) :
    ((alterEntries key (fun old => old.getD 0 + n) es).map (·.2.toNat)).sum =
      (es.map (·.2.toNat)).sum + n.toNat := by
  induction es with
  | nil => simp [alterEntries]
  | cons e rest ih =>
    obtain ⟨k, m⟩ := e
    simp only [alterEntries]
    split
    · simp [Nat.add_comm]
    · split
      · next heq =>
        subst heq
        have hfits : m.toNat + n.toNat < 2 ^ 64 := by simpa using h
        simp
        omega
      · next hne =>
        rw [lookup_cons_of_ne hne] at h
        simp only [List.map_cons, List.sum_cons, ih h, Nat.add_assoc]

/-- As long as a word holds them, added counts are not lost. -/
theorem total_foldl_add {es : List (String × UInt64)} {t : Tally}
    (h : t.total + (es.map (·.2.toNat)).sum < UInt64.size) :
    (es.foldl (fun t (k, n) => t.add k n) t).total = t.total + (es.map (·.2.toNat)).sum := by
  induction es generalizing t with
  | nil => simp
  | cons e es ih =>
    rw [List.map_cons, List.sum_cons, ← Nat.add_assoc] at h ⊢
    have hadd : (t.add e.1 e.2).total = t.total + e.2.toNat := by
      refine sum_alterEntries (Nat.lt_of_le_of_lt ?_ h)
      have := t.count_le_total e.1
      simp only [count, get?] at this
      omega
    rw [List.foldl_cons, ih (hadd ▸ h), hadd]

theorem total_merge {t u : Tally} (h : t.total + u.total < UInt64.size) :
    (t.merge u).total = t.total + u.total :=
  total_foldl_add h

/-- A sum over the entries is one over any names among which those of the tally are. -/
theorem sum_entries_eq_sum_names {t : Tally} {names : List String} (hnodup : names.Nodup)
    (h : ∀ key, t.Has key → key ∈ names) {f : String → Nat → Nat} (hf : ∀ key, f key 0 = 0) :
    (t.entries.map fun e => f e.1 e.2.toNat).sum =
      (names.map fun key => f key (t.count key).toNat).sum := by
  have hentries : (t.entries.map fun e => f e.1 e.2.toNat) =
      (t.entries.map (·.1)).map fun key => f key (t.count key).toNat := by
    rw [List.map_map]
    exact List.map_congr_left fun e he => by simp [count_of_mem he]
  rw [hentries, ← List.sum_toFinset _ t.nodup_keys, ← List.sum_toFinset _ hnodup]
  refine Finset.sum_subset (fun key hkey => ?_) fun key _ hkey => ?_
  · exact List.mem_toFinset.2 (h key (has_iff.2 (List.mem_toFinset.1 hkey)))
  · rw [count_of_not_has fun hhas => hkey (List.mem_toFinset.2 (has_iff.1 hhas))]
    exact hf key

end SourceMend.Tally
