import Mathlib.Dynamics.PeriodicPts.Defs
import SourceMend.Proofs.Repair.Orbit

/-!
Orbits that come to rest. Once a pass gives back its text, all later passes do, so such an orbit
cannot lead back to a state that it has left: a repair with passes enough ends at a fixed point.
-/
namespace SourceMend

/-- A point that comes back to itself and comes to rest has never moved. -/
theorem isFixedPt_of_isPeriodicPt {α : Type} {f : α → α} {x : α} {p k : Nat}
    (hp : 0 < p) (hx : Function.IsPeriodicPt f p x) (hrest : Function.IsFixedPt f (f^[k] x)) :
    Function.IsFixedPt f x := by
  have hback : f^[p * k] x = x := hx.mul_const k
  have hlate : f^[p * k] x = f^[k] x := by
    obtain ⟨m, hm⟩ := Nat.exists_eq_add_of_le (Nat.le_mul_of_pos_left k hp)
    rw [hm, Nat.add_comm, Function.iterate_add_apply]
    exact hrest.iterate m
  rw [← hlate, hback] at hrest
  exact hrest

namespace RuleSet

variable (rules : RuleSet) (ctx : Context) (text : Text)

theorem orbit_eq_iterate (n : Nat) :
    rules.orbit ctx text n = (fun t => (rules.applyPass t ctx).text)^[n] text := by
  induction n with
  | zero => rfl
  | succ n ih =>
    rw [Function.iterate_succ_apply', ← ih]
    rfl

theorem orbit_add (m n : Nat) :
    rules.orbit ctx text (m + n) = rules.orbit ctx (rules.orbit ctx text m) n := by
  simp only [orbit_eq_iterate]
  rw [Nat.add_comm, Function.iterate_add_apply]

variable {rules ctx text}

/-- An orbit that comes to rest has not gone round in circles before. -/
theorem orbit_succ_eq_of_rest {j n k : Nat} (hjn : j < n)
    (hback : rules.orbit ctx text n = rules.orbit ctx text j)
    (hrest : rules.orbit ctx text (k + 1) = rules.orbit ctx text k) (hjk : j ≤ k) :
    rules.orbit ctx text (j + 1) = rules.orbit ctx text j := by
  obtain ⟨p, rfl⟩ := Nat.exists_eq_add_of_lt hjn
  obtain ⟨i, rfl⟩ := Nat.exists_eq_add_of_le hjk
  rw [Nat.add_assoc, orbit_add] at hback
  have hperiod : Function.IsPeriodicPt (fun t => (rules.applyPass t ctx).text) (p + 1)
      (rules.orbit ctx text j) := by
    rwa [orbit_eq_iterate rules ctx (rules.orbit ctx text j)] at hback
  refine isFixedPt_of_isPeriodicPt (Nat.succ_pos p) hperiod (k := i) ?_
  rw [← orbit_eq_iterate, ← orbit_add]
  exact hrest

/-- A repair of a text that comes to rest within the budget finds that out. -/
theorem repair_of_rest {k : Nat} {maxPasses : UInt32} (hk : k < (passBudget maxPasses).toNat)
    (hrest : rules.orbit ctx text (k + 1) = rules.orbit ctx text k)
    (hd : rules.Distinguishes ctx text (rules.repair maxPasses text ctx).passesExecuted.toNat) :
    (rules.repair maxPasses text ctx).convergence = .converged ∧
      (rules.repair maxPasses text ctx).passesExecuted.toNat ≤ k + 1 := by
  have hend := rules.repair_ending maxPasses text ctx
  have hbudget := (passBudget maxPasses).toNat_lt
  have hreturns : Returns (rules.digestAt ctx text) (k + 1) :=
    ⟨k, Nat.lt_succ_self k, congrArg Digest.ofText hrest⟩
  revert hend hd
  generalize rules.repair maxPasses text ctx = out
  intro hd hend
  cases hend with
  | exhausted fresh => exact absurd hreturns (fresh (k + 1) hk)
  | @converged n within fresh same =>
    have hn : n < k + 1 := Nat.lt_of_not_le fun hle => fresh (k + 1) hle hreturns
    exact ⟨rfl, (toNat_toUInt32 (show n + 1 < 2 ^ 32 by omega)).trans_le hn⟩
  | @oscillating n j within fresh earlier same =>
    simp only [toNat_toUInt32 (show n + 1 < 2 ^ 32 by omega)] at hd
    have hn : n < k + 1 := Nat.lt_of_not_le fun hle => fresh (k + 1) hle hreturns
    have hback : rules.orbit ctx text (n + 1) = rules.orbit ctx text j :=
      hd (n + 1) le_rfl j (by omega) same
    have hstill := orbit_succ_eq_of_rest (by omega) hback hrest (by omega)
    exact absurd ⟨j, Nat.lt_succ_self j, congrArg Digest.ofText hstill⟩ (fresh (j + 1) earlier)

/-- A repair of a text that is at rest takes one pass and leaves it as it is. -/
theorem repair_of_still (maxPasses : UInt32) (h : (rules.applyPass text ctx).text = text) :
    rules.repair maxPasses text ctx =
      ⟨text, .converged, 1, 1, Tally.empty.merge (rules.applyPass text ctx).fires⟩ := by
  obtain ⟨n, hn⟩ : ∃ n, (passBudget maxPasses).toNat = n + 1 := by
    refine Nat.exists_eq_add_one.2 ?_
    rw [toNat_passBudget]
    omega
  unfold repair
  rw [hn, Repair.run, h]
  exact if_pos rfl

/-- A repair of a text that comes to rest by one pass takes a second one to confirm it. -/
theorem repair_of_settled {out : Text} {maxPasses : UInt32} (hbudget : 2 ≤ maxPasses.toNat)
    (hpass : (rules.applyPass text ctx).text = out)
    (hne : Digest.ofText text ≠ Digest.ofText out)
    (hstill : (rules.applyPass out ctx).text = out) :
    rules.repair maxPasses text ctx =
      ⟨out, .converged, 1, 2, (Tally.empty.merge (rules.applyPass text ctx).fires).merge
        (rules.applyPass out ctx).fires⟩ := by
  obtain ⟨n, hn⟩ : ∃ n, (passBudget maxPasses).toNat = n + 1 + 1 := by
    refine ⟨(passBudget maxPasses).toNat - 2, ?_⟩
    rw [toNat_passBudget]
    omega
  have hhead : ¬ [Digest.ofText text].head? = some (Digest.ofText out) := by simpa using hne
  have hearlier : [Digest.ofText text].findIdx? (· = Digest.ofText out) = none := by
    simpa [List.findIdx?_cons] using hne
  unfold repair
  rw [hn, Repair.run]
  simp only [hpass, if_neg hhead, hearlier]
  rw [Repair.run]
  simp only [hstill]
  exact if_pos rfl

/-- A repair that has converged leaves a text that is at rest. -/
theorem applyPass_of_converged {maxPasses : UInt32}
    (hd : rules.Distinguishes ctx text (rules.repair maxPasses text ctx).passesExecuted.toNat)
    (hc : (rules.repair maxPasses text ctx).convergence = .converged) :
    (rules.applyPass (rules.repair maxPasses text ctx).content ctx).text =
      (rules.repair maxPasses text ctx).content := by
  have hend := rules.repair_ending maxPasses text ctx
  have hbudget := (passBudget maxPasses).toNat_lt
  revert hend hd hc
  generalize rules.repair maxPasses text ctx = out
  intro hd hc hend
  cases hend with
  | exhausted | oscillating => contradiction
  | @converged n within fresh same =>
    simp only [toNat_toUInt32 (show n + 1 < 2 ^ 32 by omega)] at hd
    exact hd (n + 1) le_rfl n (by omega) same

end RuleSet
end SourceMend
