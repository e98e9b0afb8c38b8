import SourceMend.Proofs.Repair.Rest
import SourceMend.Proofs.RuleSet.Chains
import SourceMend.Proofs.RuleSet.Selection

/-!
What the cycle check promises. It drives every text that a rule is known to produce through the
rules, round by round, and accepts only if it comes to rest without that rule. A round is a pass, so
a repair of such a text ends at a fixed point too, and the rule leaves it alone on the way.
-/
namespace SourceMend

/-- Wherever a rule with this id stands among the rules, it keeps the text that it is given when
they are applied to `text` one after the other. -/
def Idle (ctx : Context) (rules : List Rule) (id : String) (text : Text) : Prop :=
  ∀ front r rest, rules = front ++ r :: rest → r.id = id →
    (r.apply (RuleSet.applyAll ctx front text) ctx).text = RuleSet.applyAll ctx front text

theorem Idle.cons {ctx : Context} {rules : List Rule} {id : String} {text : Text} {r : Rule}
    (hr : r.id = id → (r.apply text ctx).text = text)
    (hrules : Idle ctx rules id (r.apply text ctx).text) : Idle ctx (r :: rules) id text := by
  intro front s rest heq hid
  cases front with
  | nil =>
    obtain ⟨rfl, rfl⟩ := List.cons.inj heq
    exact hr hid
  | cons s' front =>
    rw [List.cons_append] at heq
    obtain ⟨rfl, htail⟩ := List.cons.inj heq
    exact hrules front s rest htail hid

namespace Cycle

/-- A rule that does not fire is idle. -/
theorem idle_of_firing {origin : String} {rules : List Rule} {text : Text}
    (h : ∀ r ∈ firing rules text, r.id ≠ origin) : Idle .bare rules origin text := by
  induction rules generalizing text with
  | nil => exact fun front r rest heq => by simp at heq
  | cons r rest ih =>
    rw [firing] at h
    split at h
    next hstill => exact .cons (fun _ => hstill) (by rw [hstill]; exact ih h)
    next =>
      obtain ⟨hid, hrest⟩ := List.forall_mem_cons.1 h
      exact .cons (fun heq => absurd heq hid) (ih hrest)

/-- A text that is accepted comes to rest within the rounds, the origin idle in each of them. -/
theorem settle_eq_ok {s : RuleSet} {origin : String} {n : Nat} {t : Trail}
    (h : settle s.fixRules origin n t = .ok ()) :
    ∃ k < n, s.orbit .bare t.text (k + 1) = s.orbit .bare t.text k ∧
      ∀ i ≤ k, Idle .bare s.fixRules origin (s.orbit .bare t.text i) := by
  induction n generalizing t with
  | zero => contradiction
  | succ n ih =>
    unfold settle at h
    split at h
    · contradiction
    next t' hround =>
      obtain ⟨ht', hfiring⟩ := round_eq_ok hround
      have hidle := idle_of_firing hfiring
      have htext : t'.text = (s.applyPass t.text .bare).text := by rw [ht', s.applyPass_text]
      split at h
      next hlength =>
        have hnone : firing s.fixRules t.text = [] := by simpa [ht'] using hlength
        have hstill : t'.text = t.text := by
          rw [htext, s.applyPass_text, ← applyAll_firing, hnone]
          rfl
        refine ⟨0, Nat.succ_pos n, htext.symm.trans hstill, fun i hi => ?_⟩
        rwa [Nat.le_zero.1 hi]
      next =>
        obtain ⟨k, hk, hrest, hlater⟩ := ih h
        -- What follows the first pass is the orbit of the text behind it.
        have hshift (i : Nat) : s.orbit .bare t.text (i + 1) = s.orbit .bare t'.text i := by
          rw [Nat.add_comm, s.orbit_add, htext]
          rfl
        refine ⟨k + 1, Nat.succ_lt_succ hk, by rw [hshift, hshift, hrest], fun i hi => ?_⟩
        cases i with
        | zero => exact hidle
        | succ i =>
          rw [hshift]
          exact hlater i (Nat.le_of_succ_le_succ hi)

theorem checkSeeds_eq_ok {fixers : List Rule} {origin : String} {texts : List Text}
    (h : checkSeeds fixers origin texts = .ok ()) {seed : Text} (hseed : seed ∈ texts) :
    settle fixers origin (2 * fixers.length + 2) ⟨seed, [origin]⟩ = .ok () := by
  induction texts with
  | nil => contradiction
  | cons first rest ih =>
    obtain ⟨⟨⟩, hfirst, hrest⟩ := eq_ok_of_bind h
    rcases List.mem_cons.1 hseed with rfl | hseed
    · exact hfirst
    · exact ih hrest hseed

theorem checkOrigins_eq_ok {fixers origins : List Rule}
    (h : checkOrigins fixers origins = .ok ()) {r : Rule} (hr : r ∈ origins) :
    checkSeeds fixers r.id (seeds r) = .ok () := by
  induction origins with
  | nil => contradiction
  | cons first rest ih =>
    obtain ⟨⟨⟩, hfirst, hrest⟩ := eq_ok_of_bind h
    rcases List.mem_cons.1 hr with rfl | hr
    · exact hfirst
    · exact ih hrest hr

end Cycle

/-- A rule set that was built has passed the cycle check. -/
theorem RuleDraft.check_of_build {d : RuleDraft} {s : RuleSet} (h : d.build = .ok s) :
    Cycle.checkOrigins s.fixRules s.fixRules = .ok () := by
  obtain ⟨rfl, hcheck, -⟩ := build_eq_ok h
  unfold Cycle.check at hcheck
  dsimp only at hcheck
  split at hcheck
  · contradiction
  next hok => exact hok

/-- In a rule set that was built, what a rule is known to produce (the outcome of an example or a
literal replacement) is repaired up to a fixed point within `2 * n + 2` passes, where `n` counts the
rules that fix. In none of the passes does the rule change the text that it is given. -/
theorem RuleDraft.repair_converges_on_outputs {d : RuleDraft} {s : RuleSet} (hs : d.build = .ok s)
    {r : Rule} (hr : r ∈ s.fixRules) {seed : Text}
    (hseed : (∃ e ∈ r.examples, e.expected.toList = seed) ∨ seed ∈ r.literalOutputs)
    {maxPasses : UInt32} (hmax : 2 * s.fixRules.length + 2 ≤ maxPasses.toNat)
    (hd : s.Distinguishes .bare seed (s.repair maxPasses seed .bare).passesExecuted.toNat) :
    (s.repair maxPasses seed .bare).convergence = .converged ∧
      ∀ i < (s.repair maxPasses seed .bare).passesExecuted.toNat,
        ∀ front rest, s.fixRules = front ++ r :: rest →
          let given := (front.foldl (RuleSet.passStep .bare)
            { text := s.orbit .bare seed i }).text
          (r.apply given .bare).text = given := by
  have hmem : seed ∈ Cycle.seeds r := by
    unfold Cycle.seeds
    rcases hseed with ⟨e, he, rfl⟩ | hseed
    · exact List.mem_append_left _ (List.mem_map_of_mem he)
    · exact List.mem_append_right _ hseed
  obtain ⟨k, hk, hrest, hidle⟩ := Cycle.settle_eq_ok
    (Cycle.checkSeeds_eq_ok (Cycle.checkOrigins_eq_ok (check_of_build hs) hr) hmem)
  dsimp only at hrest hidle
  have hbudget : k < (passBudget maxPasses).toNat := by
    rw [toNat_passBudget]
    omega
  obtain ⟨hconverged, hexecuted⟩ := RuleSet.repair_of_rest hbudget hrest hd
  refine ⟨hconverged, fun i hi front rest heq => ?_⟩
  dsimp only
  rw [RuleSet.foldl_passStep_text front (RuleSet.PassState.current_start _ _)]
  exact hidle i (by omega) front r rest heq rfl

/-- Replaces one letter by another. -/
def letterRule (id : String) (old new : Char) : Rule where
  id := id
  category := "demo"
  pattern := { source := String.ofList [old], node := .literal [old], groupNames := [none] }
  replacement := some (String.ofList [new])
  examples := [⟨String.ofList [old], String.ofList [new]⟩]

/-- What a rule produces is the next rule's matter in the pass behind. -/
def chainRules : List Rule :=
  [letterRule "third" 'c' 'd', letterRule "second" 'b' 'c', letterRule "first" 'a' 'b']

theorem repair_converges_on_outputs_chain :
    RuleDraft.build { rules := chainRules } = .ok ⟨1, chainRules⟩ ∧
    RuleSet.Distinguishes ⟨1, chainRules⟩ .bare ['b'] 3 ∧
    (RuleSet.repair ⟨1, chainRules⟩ 8 ['b'] .bare).passesExecuted = 3 ∧
    (RuleSet.repair ⟨1, chainRules⟩ 8 ['b'] .bare).convergence = .converged ∧
    ∀ i < 3,
      let given := ((chainRules.take 2).foldl (RuleSet.passStep .bare)
        { text := RuleSet.orbit ⟨1, chainRules⟩ .bare ['b'] i }).text
      ((letterRule "first" 'a' 'b').apply given .bare).text = given := by
  have hbuild : RuleDraft.build { rules := chainRules } = .ok ⟨1, chainRules⟩ :=
    RuleDraft.build_eq (by decide) rfl rfl rfl rfl (by decide +kernel) (by decide +kernel)
  have hfirst : letterRule "first" 'a' 'b' ∈ RuleSet.fixRules ⟨1, chainRules⟩ := by
    simp [RuleSet.fixRules, chainRules, letterRule, Rule.isFix]
  have hseed : ['b'] ∈ (letterRule "first" 'a' 'b').literalOutputs := by
    decide +kernel
  have hmax : 2 * (RuleSet.fixRules ⟨1, chainRules⟩).length + 2 ≤ (8 : UInt32).toNat := by decide
  have hexecuted : (RuleSet.repair ⟨1, chainRules⟩ 8 ['b'] .bare).passesExecuted = 3 := by
    decide +kernel
  have hd : RuleSet.Distinguishes ⟨1, chainRules⟩ .bare ['b'] 3 := by decide +kernel
  obtain ⟨hconverged, hidle⟩ := RuleDraft.repair_converges_on_outputs hbuild hfirst (.inr hseed)
    hmax (by rwa [hexecuted])
  rw [hexecuted] at hidle
  exact ⟨hbuild, hd, hexecuted, hconverged, fun i hi => hidle i hi (chainRules.take 2) [] rfl⟩

end SourceMend
