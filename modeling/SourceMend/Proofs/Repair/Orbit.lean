import Mathlib.Algebra.BigOperators.Group.Finset.Basic
import Mathlib.Order.Bounds.Basic
import SourceMend.Proofs.Tally
import SourceMend.Repair

/-!
Repairs along the orbit of a text under the passes. The loop compares digests, so it is first
described by the digests alone; when no two different states that it visits share a digest, the
same description holds of the states themselves.
-/
namespace SourceMend
namespace RuleSet

variable (rules : RuleSet) (ctx : Context) (text : Text)

/-- The text after `n` passes. -/
def orbit : Nat → Text
  | 0 => text
  | n + 1 => (rules.applyPass (orbit n) ctx).text

/-- What fires in the pass behind the state with number `n`. -/
def firesAt (n : Nat) : Tally := (rules.applyPass (rules.orbit ctx text n) ctx).fires

/-- What fires in the first `n` passes. -/
def firesOf : Nat → Tally
  | 0 => Tally.empty
  | n + 1 => (firesOf n).merge (rules.firesAt ctx text n)

def digestAt (n : Nat) : Digest := Digest.ofText (rules.orbit ctx text n)

/-- No two different states of the first `n` passes share a digest. -/
def Distinguishes (n : Nat) : Prop :=
  ∀ i ≤ n, ∀ j ≤ n, rules.digestAt ctx text i = rules.digestAt ctx text j →
    rules.orbit ctx text i = rules.orbit ctx text j

theorem has_firesOf (n : Nat) (key : String) :
    (rules.firesOf ctx text n).Has key ↔ ∃ k < n, (rules.firesAt ctx text k).Has key := by
  induction n with
  | zero => simp [firesOf, Tally.not_has_empty]
  | succ n ih =>
    rw [firesOf, Tally.has_merge, ih]
    simp only [Nat.lt_succ_iff_lt_or_eq, or_and_right, exists_or, exists_eq_left]

theorem count_firesOf (n : Nat) (key : String) :
    ((rules.firesOf ctx text n).count key).toNat =
      (∑ k ∈ Finset.range n, ((rules.firesAt ctx text k).count key).toNat) % 2 ^ 64 := by
  induction n with
  | zero => rfl
  | succ n ih =>
    rw [firesOf, Tally.count_merge, UInt64.toNat_add, ih, Finset.sum_range_succ, Nat.mod_add_mod]

end RuleSet

/-- The state with number `i` has been there before. -/
def Returns {α : Type} (x : Nat → α) (i : Nat) : Prop := ∃ j < i, x i = x j

/-- Two equal states with numbers `i < k` make the later one a return. -/
theorem eq_of_not_returns {α : Type} {x : Nat → α} {n i j : Nat}
    (h : ∀ k ≤ n, ¬ Returns x k) (hi : i ≤ n) (hj : j ≤ n) (he : x i = x j) : i = j := by
  rcases Nat.lt_trichotomy i j with hlt | heq | hlt
  · exact absurd ⟨i, hlt, he.symm⟩ (h j hj)
  · exact heq
  · exact absurd ⟨j, hlt, he⟩ (h i hi)

namespace Repair

variable {rules : RuleSet} {ctx : Context} {text : Text}

/-- A repair under way after `n` passes, none of which came back to an earlier digest. -/
structure State.Follows (rules : RuleSet) (ctx : Context) (text : Text) (n : Nat) (st : State) :
    Prop where
  current : st.current = rules.orbit ctx text n
  history : st.history = (List.range (n + 1)).reverse.map (rules.digestAt ctx text)
  executed : st.executed = n
  changing : st.changing = n
  fires : st.fires = rules.firesOf ctx text n
  fresh : ∀ i ≤ n, ¬ Returns (rules.digestAt ctx text) i

theorem State.Follows.start (rules : RuleSet) (ctx : Context) (text : Text) :
    State.Follows rules ctx text 0 { current := text, history := [Digest.ofText text] } where
  current := rfl
  history := rfl
  executed := rfl
  changing := rfl
  fires := rfl
  fresh := by
    rintro i hi ⟨j, hj, -⟩
    omega

/-- How a repair of at most `budget` passes ends, told by the digests of the states. -/
inductive Ending (rules : RuleSet) (ctx : Context) (text : Text) (budget : Nat) : Repair → Prop
  | exhausted (fresh : ∀ i ≤ budget, ¬ Returns (rules.digestAt ctx text) i) :
    Ending rules ctx text budget
      ⟨rules.orbit ctx text budget, .exhausted, (max budget 1).toUInt32, budget.toUInt32,
        rules.firesOf ctx text budget⟩
  | converged {n : Nat} (within : n < budget)
    (fresh : ∀ i ≤ n, ¬ Returns (rules.digestAt ctx text) i)
    (same : rules.digestAt ctx text (n + 1) = rules.digestAt ctx text n) :
    Ending rules ctx text budget
      ⟨rules.orbit ctx text n, .converged, (max n 1).toUInt32, (n + 1).toUInt32,
        rules.firesOf ctx text (n + 1)⟩
  | oscillating {n j : Nat} (within : n < budget)
    (fresh : ∀ i ≤ n, ¬ Returns (rules.digestAt ctx text) i) (earlier : j < n)
    (same : rules.digestAt ctx text (n + 1) = rules.digestAt ctx text j) :
    Ending rules ctx text budget
      ⟨rules.orbit ctx text (n + 1), .oscillating (n + 1 - j).toUInt32, (n + 1).toUInt32,
        (n + 1).toUInt32, rules.firesOf ctx text (n + 1)⟩

theorem run_ending (budget : Nat) {n : Nat} {st : State} (h : st.Follows rules ctx text n) :
    Ending rules ctx text (n + budget) (run rules ctx budget st) := by
  induction budget generalizing n st with
  | zero =>
    simp only [run, State.finish, h.current, h.executed, h.changing, h.fires]
    exact .exhausted h.fresh
  | succ budget ih =>
    have hpass : (rules.applyPass st.current ctx).text = rules.orbit ctx text (n + 1) := by
      rw [h.current]
      rfl
    have hfires : st.fires.merge (rules.applyPass st.current ctx).fires =
        rules.firesOf ctx text (n + 1) := by
      rw [h.current, h.fires]
      rfl
    have hhead : st.history.head? = some (rules.digestAt ctx text n) := by
      simp [h.history, List.range_succ]
    have hget (i : Nat) (hi : i < st.history.length) :
        st.history[i] = rules.digestAt ctx text (n - i) := by
      simp [h.history]
    have hlen : st.history.length = n + 1 := by simp [h.history]
    simp only [run, hpass, hfires, hhead]
    split
    · next hsame =>
      simp only [State.finish, h.current, h.executed, h.changing]
      exact .converged (by omega) h.fresh (Option.some.inj hsame).symm
    · next hne =>
      have hne' : rules.digestAt ctx text (n + 1) ≠ rules.digestAt ctx text n :=
        fun he => hne (congrArg some he.symm)
      split
      · next i hi =>
        obtain ⟨hi', hsame, -⟩ := List.findIdx?_eq_some_iff_getElem.1 hi
        rw [hget i hi', decide_eq_true_eq] at hsame
        -- The latest state does not come again here, so the state met is an older one.
        have hpos : i ≠ 0 := by
          rintro rfl
          exact hne' hsame.symm
        have hperiod : i + 1 = n + 1 - (n - i) := by omega
        simp only [State.finish, h.executed, h.changing]
        rw [hperiod, Nat.max_eq_left (by omega)]
        exact .oscillating (by omega) h.fresh (by omega) hsame.symm
      · next hnone =>
        rw [Nat.add_comm budget, ← Nat.add_assoc]
        refine ih ⟨rfl, ?_, by simp [h.executed], by simp [h.changing], rfl, ?_⟩
        · rw [List.range_succ, List.reverse_append, List.map_append, ← h.history]
          rfl
        · intro i hi
          rcases Nat.lt_succ_iff_lt_or_eq.1 (Nat.lt_succ_of_le hi) with hlt | rfl
          · exact h.fresh i (by omega)
          · rintro ⟨j, hj, he⟩
            have hmem : rules.digestAt ctx text j ∈ st.history := by
              rw [h.history]
              exact List.mem_map_of_mem (by simp; omega)
            have := List.findIdx?_eq_none_iff.1 hnone _ hmem
            exact (decide_eq_false_iff_not.1 this) he.symm

/-- How a repair of at most `budget` passes ends on the orbit `x`, where `fires` tells what each
pass fires. -/
structure Exact (x : Nat → Text) (fires : Nat → Tally) (budget : Nat) (out : Repair) : Prop where
  /-- No state comes again within the budget. -/
  exhausted : (∀ i, 1 ≤ i → i ≤ budget → ¬ Returns x i) →
    out.convergence = .exhausted ∧ out.passesExecuted.toNat = budget ∧ out.content = x budget ∧
      out.passesUsed = out.passesExecuted
  /-- The first state that comes again is the one just left. -/
  converged : ∀ i, IsLeast {i | 1 ≤ i ∧ i ≤ budget ∧ Returns x i} i → x i = x (i - 1) →
    out.convergence = .converged ∧ out.passesExecuted.toNat = i ∧ out.content = x (i - 1) ∧
      out.passesUsed.toNat = max 1 (i - 1)
  /-- The first state that comes again is an older one. -/
  oscillating : ∀ i, IsLeast {i | 1 ≤ i ∧ i ≤ budget ∧ Returns x i} i → x i ≠ x (i - 1) →
    ∃ j, (j < i - 1 ∧ x i = x j ∧ ∀ k < i, x i = x k → k = j) ∧ 2 ≤ i - j ∧
      (∃ period, out.convergence = .oscillating period ∧ period.toNat = i - j) ∧
      out.passesExecuted.toNat = i ∧ out.content = x i ∧ out.passesUsed = out.passesExecuted
  one_le_used : 1 ≤ out.passesUsed.toNat
  used_le_executed : out.passesUsed.toNat ≤ out.passesExecuted.toNat
  executed_le_budget : out.passesExecuted.toNat ≤ budget
  /-- A rule is listed when one of the executed passes fired it. -/
  has_fires : ∀ id, out.fires.Has id ↔ ∃ k < out.passesExecuted.toNat, (fires k).Has id
  count_fires : ∀ id, (out.fires.count id).toNat =
    (∑ k ∈ Finset.range out.passesExecuted.toNat, ((fires k).count id).toNat) % 2 ^ 64

end Repair

theorem RuleSet.Distinguishes.returns_iff {rules : RuleSet} {ctx : Context} {text : Text}
    {n i : Nat} (h : rules.Distinguishes ctx text n) (hi : i ≤ n) :
    Returns (rules.digestAt ctx text) i ↔ Returns (rules.orbit ctx text) i := by
  refine exists_congr fun j => and_congr_right fun hj => ⟨h i hi j (by omega), fun he => ?_⟩
  exact congrArg Digest.ofText he

theorem toNat_passBudget (maxPasses : UInt32) :
    (passBudget maxPasses).toNat = max maxPasses.toNat 1 := by
  unfold passBudget
  split
  · next h => simp [h]
  · next h =>
    have : maxPasses.toNat ≠ 0 := fun h' => h (UInt32.toNat_inj.1 h')
    omega

theorem toNat_toUInt32 {n : Nat} (h : n < 2 ^ 32) : n.toUInt32.toNat = n :=
  UInt32.toNat_ofNat_of_lt' h

namespace Repair

variable {rules : RuleSet} {ctx : Context} {text : Text} {budget : Nat}

/-- A state that comes again behind states that do not is the first one that does. -/
theorem isLeast_returns {n : Nat} (hd : rules.Distinguishes ctx text (n + 1)) (hn : n < budget)
    (fresh : ∀ i ≤ n, ¬ Returns (rules.digestAt ctx text) i)
    (hr : Returns (rules.digestAt ctx text) (n + 1)) :
    IsLeast {i | 1 ≤ i ∧ i ≤ budget ∧ Returns (rules.orbit ctx text) i} (n + 1) := by
  refine ⟨⟨by omega, by omega, (hd.returns_iff le_rfl).1 hr⟩, ?_⟩
  rintro i ⟨-, -, hi⟩
  by_contra hlt
  exact fresh i (by omega) ((hd.returns_iff (by omega)).2 hi)

theorem Ending.exact {out : Repair} (h : Ending rules ctx text budget out) (hpos : 1 ≤ budget)
    (hlt : budget < 2 ^ 32) (hd : rules.Distinguishes ctx text out.passesExecuted.toNat) :
    Exact (rules.orbit ctx text) (rules.firesAt ctx text) budget out := by
  cases h with
  | exhausted fresh =>
    simp only [toNat_toUInt32 hlt] at hd
    have hnone (i : Nat) (hi : i ≤ budget) : ¬ Returns (rules.orbit ctx text) i :=
      fun hr => fresh i hi ((hd.returns_iff hi).2 hr)
    have hused : max budget 1 = budget := by omega
    have hexec : budget.toUInt32.toNat = budget := toNat_toUInt32 hlt
    exact {
      exhausted := fun _ => ⟨rfl, hexec, rfl, by rw [hused]⟩
      converged := fun i hi _ => absurd hi.1.2.2 (hnone i hi.1.2.1)
      oscillating := fun i hi _ => absurd hi.1.2.2 (hnone i hi.1.2.1)
      one_le_used := by rw [hused, hexec]; exact hpos
      used_le_executed := by rw [hused]
      executed_le_budget := hexec.le
      has_fires := by rw [hexec]; exact rules.has_firesOf ctx text budget
      count_fires := by rw [hexec]; exact rules.count_firesOf ctx text budget }
  | @converged n within fresh same =>
    have hexec : (n + 1).toUInt32.toNat = n + 1 := toNat_toUInt32 (by omega)
    have hused : (max n 1).toUInt32.toNat = max n 1 := toNat_toUInt32 (by omega)
    simp only [hexec] at hd
    have hsame : rules.orbit ctx text (n + 1) = rules.orbit ctx text n :=
      hd (n + 1) le_rfl n (by omega) same
    have hleast := isLeast_returns hd within fresh ⟨n, by omega, same⟩
    exact {
      exhausted := fun h => absurd hleast.1.2.2 (h _ hleast.1.1 hleast.1.2.1)
      converged := fun i hi _ => by
        obtain rfl := hi.unique hleast
        exact ⟨rfl, hexec, rfl, by rw [hused, Nat.max_comm]; rfl⟩
      oscillating := fun i hi hne => by
        obtain rfl := hi.unique hleast
        exact absurd hsame hne
      one_le_used := by rw [hused]; omega
      used_le_executed := by rw [hused, hexec]; omega
      executed_le_budget := by rw [hexec]; omega
      has_fires := by rw [hexec]; exact rules.has_firesOf ctx text (n + 1)
      count_fires := by rw [hexec]; exact rules.count_firesOf ctx text (n + 1) }
  | @oscillating n j within fresh earlier same =>
    have hexec : (n + 1).toUInt32.toNat = n + 1 := toNat_toUInt32 (by omega)
    simp only [hexec] at hd
    have hsame : rules.orbit ctx text (n + 1) = rules.orbit ctx text j :=
      hd (n + 1) le_rfl j (by omega) same
    have hleast := isLeast_returns hd within fresh ⟨j, by omega, same⟩
    -- The states before are pairwise different, so only one of them comes again.
    have hunique (k : Nat) (hk : k < n + 1)
        (he : rules.orbit ctx text (n + 1) = rules.orbit ctx text k) : k = j :=
      eq_of_not_returns fresh (by omega) (by omega)
        (congrArg Digest.ofText (he.symm.trans hsame))
    exact {
      exhausted := fun h => absurd hleast.1.2.2 (h _ hleast.1.1 hleast.1.2.1)
      converged := fun i hi he => by
        obtain rfl := hi.unique hleast
        have := hunique n (by omega) he
        omega
      oscillating := fun i hi _ => by
        obtain rfl := hi.unique hleast
        exact ⟨j, ⟨by omega, hsame, hunique⟩, by omega, ⟨_, rfl, toNat_toUInt32 (by omega)⟩,
          hexec, rfl, rfl⟩
      one_le_used := by rw [hexec]; omega
      used_le_executed := le_rfl
      executed_le_budget := by rw [hexec]; omega
      has_fires := by rw [hexec]; exact rules.has_firesOf ctx text (n + 1)
      count_fires := by rw [hexec]; exact rules.count_firesOf ctx text (n + 1) }

end Repair

theorem RuleSet.repair_ending (rules : RuleSet) (maxPasses : UInt32) (text : Text) (ctx : Context) :
    Repair.Ending rules ctx text (passBudget maxPasses).toNat
      (rules.repair maxPasses text ctx) := by
  have h := Repair.run_ending (passBudget maxPasses).toNat (.start rules ctx text)
  rwa [Nat.zero_add] at h

/-- When no two different states among those visited share a digest, a repair runs along the orbit
of the text up to the first state that comes again, or to the end of its budget. -/
theorem RuleSet.repair_exact (rules : RuleSet) (text : Text) (ctx : Context) (maxPasses : UInt32)
    (hd : rules.Distinguishes ctx text (rules.repair maxPasses text ctx).passesExecuted.toNat) :
    Repair.Exact (rules.orbit ctx text) (rules.firesAt ctx text) (max maxPasses.toNat 1)
      (rules.repair maxPasses text ctx) := by
  have h := rules.repair_ending maxPasses text ctx
  rw [toNat_passBudget] at h
  exact h.exact (by omega) (by have := maxPasses.toNat_lt; omega) hd

/-- Exchanges two letters with a blank between them. -/
def swapRule : Rule where
  id := "swap"
  category := "demo"
  pattern := {
    source := "(?P<x>[AB]) (?P<y>[AB])"
    node := .seq (.group 1 (some "x") (.one [(65, 66)]))
      (.seq (.literal [' ']) (.group 2 (some "y") (.one [(65, 66)])))
    groupNames := [none, some "x", some "y"] }
  replacement := some "$\x7by\x7d $\x7bx\x7d"

instance (rules : RuleSet) (ctx : Context) (text : Text) (n : Nat) :
    Decidable (rules.Distinguishes ctx text n) :=
  inferInstanceAs (Decidable (∀ i ≤ n, ∀ j ≤ n,
    rules.digestAt ctx text i = rules.digestAt ctx text j →
      rules.orbit ctx text i = rules.orbit ctx text j))

/-- Exchanging comes back to the start after two of five passes. -/
theorem repair_exact_swap :
    RuleSet.Distinguishes ⟨1, [swapRule]⟩ .bare ['A', ' ', 'B'] 2 ∧
    (RuleSet.repair ⟨1, [swapRule]⟩ 5 ['A', ' ', 'B'] .bare).convergence = .oscillating 2 ∧
    Repair.Exact (RuleSet.orbit ⟨1, [swapRule]⟩ .bare ['A', ' ', 'B'])
      (RuleSet.firesAt ⟨1, [swapRule]⟩ .bare ['A', ' ', 'B']) (max (5 : UInt32).toNat 1)
      (RuleSet.repair ⟨1, [swapRule]⟩ 5 ['A', ' ', 'B'] .bare) :=
  ⟨by decide +kernel, by decide +kernel,
    RuleSet.repair_exact ⟨1, [swapRule]⟩ ['A', ' ', 'B'] .bare 5 (by decide +kernel)⟩

end SourceMend
