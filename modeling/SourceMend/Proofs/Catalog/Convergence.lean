import SourceMend.Proofs.Catalog.Build
import SourceMend.Proofs.Repair.FixedPoint
import SourceMend.Proofs.Repair.Rest

/-!
Repairs with the built-in rules. Every replacement removes a flaw, and a text has no more flaws than
bytes. So a repair reaches a fixed point within as many passes, never turns in a circle, and leaves
no fix undone.
-/
namespace SourceMend.Catalog

/-- A pass of the rules, had without memory. -/
def triedAll (ctx : Context) (text : Text) : Option Text := fixes.foldlM (tried ctx) text

theorem triedAll_eq (ctx : Context) (text : Text) :
    triedAll ctx text = some (RuleSet.applyAll ctx fixers text) := by
  suffices h : ∀ (fs : List (RuleSpec × Pattern.Node)) (t : Text), (∀ f ∈ fs, f ∈ fixes) →
      fs.foldlM (tried ctx) t = some (RuleSet.applyAll ctx (fs.map fun f => f.1.toRule f.2) t) from
    h fixes text fun _ hf => hf
  intro fs
  induction fs with
  | nil => exact fun _ _ => rfl
  | cons f fs ih =>
    intro t hfs
    obtain ⟨hf, hfs⟩ := List.forall_mem_cons.1 hfs
    rw [List.foldlM_cons, tried_eq hf, Option.bind_eq_bind, Option.bind_some, ih _ hfs]
    rfl

/-- Where one pass removes all flaws, the second state is the last one. -/
theorem orbit_of_triedAll {ctx : Context} {text out : Text} (h : triedAll ctx text = some out)
    (hout : flaws [] out = 0) (n : Nat) : builtin.orbit ctx text (n + 1) = out := by
  induction n with
  | zero =>
    rw [triedAll_eq] at h
    rw [RuleSet.orbit, RuleSet.applyPass_text, fixRules_builtin]
    exact Option.some.inj h
  | succ n ih =>
    rw [RuleSet.orbit, ih]
    rcases (lowers_builtin ctx).applyPass out with hlt | ⟨heq, -⟩
    · omega
    · exact heq

theorem distinguishes_of_triedAll {ctx : Context} {text out : Text}
    (h : triedAll ctx text = some out) (hout : flaws [] out = 0)
    (hne : Digest.ofText text ≠ Digest.ofText out) (n : Nat) :
    builtin.Distinguishes ctx text n := by
  intro i _ j _ hij
  simp only [RuleSet.digestAt] at hij
  cases i with
  | zero =>
    cases j with
    | zero => rfl
    | succ j => exact absurd (hij.trans (by rw [orbit_of_triedAll h hout])) hne
  | succ i =>
    cases j with
    | zero => exact absurd (hij.symm.trans (by rw [orbit_of_triedAll h hout])) hne
    | succ j => rw [orbit_of_triedAll h hout, orbit_of_triedAll h hout]

/-- Where one pass removes all flaws, a second one confirms that, and the repair is over. -/
theorem repair_of_triedAll {ctx : Context} {text out : Text} (h : triedAll ctx text = some out)
    (hout : flaws [] out = 0) (hne : Digest.ofText text ≠ Digest.ofText out) {maxPasses : UInt32}
    (hbudget : 2 ≤ maxPasses.toNat) : ∃ fires,
      builtin.repair maxPasses text ctx = ⟨out, .converged, 1, 2, fires⟩ := by
  have hpass : (builtin.applyPass text ctx).text = out := orbit_of_triedAll h hout 0
  have hstill : (builtin.applyPass out ctx).text = out := by
    have hnext := orbit_of_triedAll h hout 1
    rwa [RuleSet.orbit, orbit_of_triedAll h hout 0] at hnext
  exact ⟨_, RuleSet.repair_of_settled hbudget hpass hne hstill⟩

/-- A value type is missing, and an element type is one too many. -/
def signatureAndCast : Text := "interface M \x7b [k: string]; \x7d f(x as Row: any[])".toList

/-- What the rules make of it. -/
def signatureAndCastMended : Text := "interface M \x7b [k: string]: any; \x7d f(x as Row[])".toList

theorem tried_signatureAndCast :
    triedAll .bare signatureAndCast = some signatureAndCastMended ∧
    flaws [] signatureAndCastMended = 0 ∧
    Digest.ofText signatureAndCast ≠ Digest.ofText signatureAndCastMended := by
  decide +kernel

theorem distinguishes_signatureAndCast (n : Nat) :
    builtin.Distinguishes .bare signatureAndCast n :=
  have ⟨htried, hflaws, hne⟩ := tried_signatureAndCast
  distinguishes_of_triedAll htried hflaws hne n

theorem repair_signatureAndCast : ∃ fires, builtin.repair 48 signatureAndCast .bare =
    ⟨signatureAndCastMended, .converged, 1, 2, fires⟩ :=
  have ⟨htried, hflaws, hne⟩ := tried_signatureAndCast
  repair_of_triedAll htried hflaws hne (by decide)

/-- The catalog can be built, and a repair with it that confuses no two states never oscillates, and
converges whenever it is allowed more passes than the text has bytes. -/
theorem repair_reaches_fixed_point : ∃ rules, ruleSet = .ok rules ∧
    ∀ (text : Text) (ctx : Context) (maxPasses : UInt32),
      rules.Distinguishes ctx text (rules.repair maxPasses text ctx).passesExecuted.toNat →
      (∀ period, (rules.repair maxPasses text ctx).convergence ≠ .oscillating period) ∧
        (Text.size text < maxPasses.toNat →
          (rules.repair maxPasses text ctx).convergence = .converged) := by
  refine ⟨builtin, ruleSet_eq, fun text ctx maxPasses hd => ?_⟩
  have hlow := lowers_builtin ctx
  refine ⟨hlow.not_oscillating hd, fun hbudget => hlow.converged hd ?_⟩
  exact (flaws_le_size [] text).trans_lt hbudget

theorem repair_reaches_fixed_point_signatureAndCast : ∃ rules, ruleSet = .ok rules ∧
    rules.Distinguishes .bare signatureAndCast
      (rules.repair 48 signatureAndCast .bare).passesExecuted.toNat ∧
    Text.size signatureAndCast < (48 : UInt32).toNat ∧
    (rules.repair 48 signatureAndCast .bare).convergence = .converged ∧
    (rules.repair 48 signatureAndCast .bare).content = signatureAndCastMended ∧
    (rules.repair 48 signatureAndCast .bare).passesUsed = 1 ∧
    (rules.repair 48 signatureAndCast .bare).passesExecuted = 2 := by
  obtain ⟨rules, hrules, h⟩ := repair_reaches_fixed_point
  obtain rfl : builtin = rules := Except.ok.inj (ruleSet_eq.symm.trans hrules)
  have hd := distinguishes_signatureAndCast
  have hsize : Text.size signatureAndCast < (48 : UInt32).toNat := by decide
  have hconverged := (h signatureAndCast .bare 48 (hd _)).2 hsize
  obtain ⟨fires, hrepair⟩ := repair_signatureAndCast
  refine ⟨builtin, hrules, hd _, hsize, hconverged, ?_⟩
  rw [hrepair]
  exact ⟨rfl, rfl, rfl⟩

/-- The catalog can be built, and where a repair with it that confuses no two states has converged,
no finding on what it leaves is a failed fix. -/
theorem no_fix_fails_when_converged : ∃ rules, ruleSet = .ok rules ∧
    ∀ (text : Text) (ctx : Context) (maxPasses : UInt32),
      rules.Distinguishes ctx text (rules.repair maxPasses text ctx).passesExecuted.toNat →
      (rules.repair maxPasses text ctx).convergence = .converged →
      ∀ path, ∀ f ∈ rules.validate path (rules.repair maxPasses text ctx).content ctx.dialect,
        f.kind ≠ .fixFailed := by
  refine ⟨builtin, ruleSet_eq, fun text ctx maxPasses hd hconverged path f hf => ?_⟩
  exact RuleSet.validate_kind_ne_fixFailed ((lowers_builtin ctx).fired_eq_zero hd hconverged) hf

theorem no_fix_fails_when_converged_signatureAndCast : ∃ rules, ruleSet = .ok rules ∧
    rules.Distinguishes .bare signatureAndCast
      (rules.repair 48 signatureAndCast .bare).passesExecuted.toNat ∧
    (rules.repair 48 signatureAndCast .bare).convergence = .converged ∧
    ∀ f ∈ rules.validate "a.ts" (rules.repair 48 signatureAndCast .bare).content .script,
      f.kind ≠ .fixFailed := by
  obtain ⟨rules, hrules, h⟩ := no_fix_fails_when_converged
  obtain rfl : builtin = rules := Except.ok.inj (ruleSet_eq.symm.trans hrules)
  have hd := distinguishes_signatureAndCast
  have hconverged : (builtin.repair 48 signatureAndCast .bare).convergence = .converged := by
    obtain ⟨fires, hrepair⟩ := repair_signatureAndCast
    rw [hrepair]
  exact ⟨builtin, hrules, hd _, hconverged, h signatureAndCast .bare 48 (hd _) hconverged "a.ts"⟩

end SourceMend.Catalog
