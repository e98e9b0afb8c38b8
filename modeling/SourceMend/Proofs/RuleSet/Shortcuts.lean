import SourceMend.Proofs.RuleSet.Cycles
import SourceMend.Proofs.RuleSet.Pass
import SourceMend.Proofs.Tally

/-!
The shortcuts of a pass. A pass passes over the rules that match nowhere and keeps its scope map
until a rule changes the text. It comes to what the plain fold comes to, in which every rule is
applied to what the rules before it have left, with a scan of its own.
-/
namespace SourceMend
namespace RuleSet

variable {ctx : Context}

/-- How often a rule fires on what the rules in `front` leave of the text. -/
def firedBehind (ctx : Context) (front : List Rule) (text : Text) (r : Rule) : Nat :=
  (r.apply (applyAll ctx front text) ctx).fired

/-- Some rule with the id `id` fires `n` times at its turn. -/
def Fires (ctx : Context) (rules : List Rule) (text : Text) (id : String) (n : UInt64) : Prop :=
  ∃ front r back, rules = front ++ r :: back ∧ r.id = id ∧ 0 < firedBehind ctx front text r ∧
    n = (firedBehind ctx front text r).toUInt64

theorem not_fires_nil (text : Text) (id : String) (n : UInt64) : ¬ Fires ctx [] text id n := by
  rintro ⟨front, r, back, h, -⟩
  simp at h

/-- The first rule fires, or another one fires on what the first one leaves. -/
theorem fires_cons (r : Rule) (rules : List Rule) (text : Text) (id : String) (n : UInt64) :
    Fires ctx (r :: rules) text id n ↔
      (r.id = id ∧ 0 < (r.apply text ctx).fired ∧ n = (r.apply text ctx).fired.toUInt64) ∨
        Fires ctx rules (r.apply text ctx).text id n := by
  constructor
  · rintro ⟨front, q, back, hsplit, hid, hfired, hn⟩
    cases front with
    | nil =>
      obtain ⟨rfl, -⟩ : r = q ∧ rules = back := by simpa using hsplit
      exact .inl ⟨hid, hfired, hn⟩
    | cons first front =>
      obtain ⟨rfl, hrules⟩ : r = first ∧ rules = front ++ q :: back := by simpa using hsplit
      exact .inr ⟨front, q, back, hrules, hid, hfired, hn⟩
  · rintro (⟨hid, hfired, hn⟩ | ⟨front, q, back, hrules, hid, hfired, hn⟩)
    · exact ⟨[], r, rules, rfl, hid, hfired, hn⟩
    · exact ⟨r :: front, q, back, by rw [hrules, List.cons_append], hid, hfired, hn⟩

theorem get?_passStep {st : PassState} (h : st.Current ctx) {r : Rule}
    (hnew : st.fires.get? r.id = none) (id : String) (n : UInt64) :
    (passStep ctx st r).fires.get? id = some n ↔ st.fires.get? id = some n ∨
      r.id = id ∧ 0 < (r.apply st.text ctx).fired ∧ n = (r.apply st.text ctx).fired.toUInt64 := by
  rw [passStep_fires h]
  by_cases hfired : 0 < (r.apply st.text ctx).fired
  · rw [if_pos hfired, Tally.get?_add, hnew, Option.getD_none, UInt64.zero_add]
    by_cases hid : id = r.id
    · subst hid
      simp [hnew, hfired, eq_comm]
    · simp [hid, Ne.symm hid]
  · simp [hfired]

/-- With different ids, the tally gains an entry for each rule that fires at its turn. -/
theorem get?_foldl_passStep {rules : List Rule} (hids : (rules.map (·.id)).Nodup) {st : PassState}
    (h : st.Current ctx) (hnew : ∀ r ∈ rules, st.fires.get? r.id = none) (id : String)
    (n : UInt64) : (rules.foldl (passStep ctx) st).fires.get? id = some n ↔
      st.fires.get? id = some n ∨ Fires ctx rules st.text id n := by
  induction rules generalizing st with
  | nil => simp [not_fires_nil]
  | cons r rules ih =>
    obtain ⟨hr, hrules⟩ := List.forall_mem_cons.1 hnew
    rw [List.map_cons, List.nodup_cons] at hids
    obtain ⟨htext, hcur⟩ := passStep_current h r
    have hlater : ∀ q ∈ rules, (passStep ctx st r).fires.get? q.id = none := by
      intro q hq
      have hne : r.id ≠ q.id := fun he => hids.1 (he ▸ List.mem_map_of_mem hq)
      refine Option.eq_none_iff_forall_ne_some.2 fun n hn => ?_
      rcases (get?_passStep h hr q.id n).1 hn with hold | ⟨hid, -⟩
      · simp [hrules q hq] at hold
      · exact hne hid
    rw [List.foldl_cons, ih hids.2 hcur hlater, get?_passStep h hr, htext, fires_cons, or_assoc]

end RuleSet

/-- In a rule set that was built, a pass gives the text that its rules make one after the other,
each with a scan of its own. Its tally has an entry for each rule that fires at its turn, with the
number of times, and no other. It reports a change exactly when the text is another one. -/
theorem RuleDraft.pass_eq_fold {d : RuleDraft} {s : RuleSet} (hs : d.build = .ok s) (text : Text)
    (ctx : Context) :
    let pass := s.applyPass text ctx
    pass.text = s.fixRules.foldl (fun t r => (r.apply t ctx).text) text ∧
    (∀ id n, pass.fires.get? id = some n ↔ ∃ front r back, s.fixRules = front ++ r :: back ∧
      r.id = id ∧
      let fired := (r.apply (front.foldl (fun t r => (r.apply t ctx).text) text) ctx).fired
      0 < fired ∧ n = fired.toUInt64) ∧
    (pass.changed = true ↔ pass.text ≠ text) := by
  have hids : (s.fixRules.map (·.id)).Nodup :=
    (nodup_ids_build hs).sublist (List.filter_sublist.map _)
  refine ⟨s.applyPass_text text ctx, fun id n => ?_, by simp [RuleSet.applyPass]⟩
  have hempty (key : String) : Tally.empty.get? key = none := rfl
  refine (RuleSet.get?_foldl_passStep hids (RuleSet.PassState.current_start ctx text)
    (fun r _ => hempty r.id) id n).trans ?_
  simp [hempty, RuleSet.Fires, RuleSet.firedBehind, RuleSet.applyAll]

/-- The first rule makes what the last one looks for, and the one between them matches nowhere. -/
def letterRules : List Rule :=
  [letterRule "first" 'a' 'b', letterRule "idle" 'x' 'y', letterRule "last" 'b' 'c']

theorem pass_eq_fold_letters :
    RuleDraft.build { rules := letterRules } = .ok ⟨1, letterRules⟩ ∧
    (RuleSet.applyPass ⟨1, letterRules⟩ "ab".toList .bare).text = "cc".toList ∧
    (RuleSet.applyPass ⟨1, letterRules⟩ "ab".toList .bare).fires.get? "last" = some 2 ∧
    (RuleSet.applyPass ⟨1, letterRules⟩ "ab".toList .bare).changed = true := by
  have hbuild : RuleDraft.build { rules := letterRules } = .ok ⟨1, letterRules⟩ :=
    RuleDraft.build_eq (by decide) rfl rfl rfl rfl (by decide +kernel) (by decide +kernel)
  obtain ⟨htext, hfires, hchanged⟩ := RuleDraft.pass_eq_fold hbuild "ab".toList .bare
  have hplain : (RuleSet.fixRules ⟨1, letterRules⟩).foldl (fun t r => (r.apply t .bare).text)
      "ab".toList = "cc".toList := by decide +kernel
  have hlast := (hfires "last" 2).2 ⟨letterRules.take 2, letterRule "last" 'b' 'c', [], rfl, rfl,
    by decide +kernel⟩
  exact ⟨hbuild, htext.trans hplain, hlast, hchanged.2 (by rw [htext, hplain]; decide)⟩

end SourceMend
