import SourceMend.Proofs.RuleSet.Building
import SourceMend.Proofs.RuleSet.Pass

/-!
Chains of rules. In a chain each rule changes what the ones before it have left of a text. The cycle
check follows the chain of the rules that fire, round by round, and refuses it when it comes back to
its origin or when every round has fired.
-/
namespace SourceMend.Cycle

open RuleSet (applyAll)

/-- Each of the rules changes what the ones before it have left of the text. -/
def Chain : Text → List Rule → Prop
  | _, [] => True
  | text, r :: rest => (r.apply text .bare).text ≠ text ∧ Chain (r.apply text .bare).text rest

theorem chain_append {text : Text} {a b : List Rule} :
    Chain text (a ++ b) ↔ Chain text a ∧ Chain (applyAll .bare a text) b := by
  induction a generalizing text with
  | nil => simp [Chain, applyAll]
  | cons r a ih => exact (and_congr_right fun _ => ih).trans and_assoc.symm

theorem chain_of_prefix {text : Text} {a b : List Rule} (h : a <+: b) (hb : Chain text b) :
    Chain text a := by
  obtain ⟨c, rfl⟩ := h
  exact (chain_append.1 hb).1

/-- The rules that change the text when all are applied one after the other. -/
def firing : List Rule → Text → List Rule
  | [], _ => []
  | r :: rest, text =>
    let next := (r.apply text .bare).text
    if next = text then firing rest text else r :: firing rest next

theorem firing_sublist (rules : List Rule) (text : Text) : (firing rules text).Sublist rules := by
  induction rules generalizing text with
  | nil => exact .slnil
  | cons r rest ih =>
    rw [firing]
    split
    · exact (ih text).cons r
    · exact (ih _).cons_cons r

/-- The rules that do not fire may as well be left out. -/
theorem applyAll_firing (rules : List Rule) (text : Text) :
    applyAll .bare (firing rules text) text = applyAll .bare rules text := by
  induction rules generalizing text with
  | nil => rfl
  | cons r rest ih =>
    rw [firing]
    split
    next hstill => rw [ih, applyAll, applyAll, List.foldl_cons, hstill]
    next => exact ih _

theorem chain_firing (rules : List Rule) (text : Text) : Chain text (firing rules text) := by
  induction rules generalizing text with
  | nil => trivial
  | cons r rest ih =>
    rw [firing]
    split
    · exact ih text
    next hmoved => exact ⟨hmoved, ih _⟩

/-- The rules that fire in the first rounds. -/
def firings (fixers : List Rule) : Nat → Text → List Rule
  | 0, _ => []
  | n + 1, text => firing fixers text ++ firings fixers n (applyAll .bare fixers text)

theorem chain_firings (fixers : List Rule) (n : Nat) (text : Text) :
    Chain text (firings fixers n text) := by
  induction n generalizing text with
  | zero => trivial
  | succ n ih =>
    refine chain_append.2 ⟨chain_firing fixers text, ?_⟩
    rw [applyAll_firing]
    exact ih _

theorem mem_of_mem_firings {fixers : List Rule} {n : Nat} {text : Text} {r : Rule}
    (h : r ∈ firings fixers n text) : r ∈ fixers := by
  induction n generalizing text with
  | zero => contradiction
  | succ n ih => exact (List.mem_append.1 h).elim (fun h => (firing_sublist ..).subset h) ih

/-- A round that is accepted ends with the rules that fired in front of the trail, and none of them
is the origin. -/
theorem round_eq_ok {origin : String} {t t' : Trail} {rules : List Rule}
    (h : round origin t rules = .ok t') :
    t' = ⟨applyAll .bare rules t.text, ((firing rules t.text).map (·.id)).reverse ++ t.ids⟩ ∧
      ∀ r ∈ firing rules t.text, r.id ≠ origin := by
  induction rules generalizing t with
  | nil =>
    obtain rfl := Except.ok.inj h
    exact ⟨rfl, fun _ hr => absurd hr List.not_mem_nil⟩
  | cons r rest ih =>
    rw [round, r.changed_apply] at h
    rw [firing, applyAll, List.foldl_cons]
    by_cases hstill : (r.apply t.text .bare).text = t.text
    · rw [if_pos (by simp [hstill])] at h
      rw [if_pos hstill, hstill]
      exact ih h
    · rw [if_neg (by simpa using hstill)] at h
      rw [if_neg hstill]
      split at h
      · contradiction
      next hid =>
        obtain ⟨ht, hrest⟩ := ih h
        refine ⟨?_, List.forall_mem_cons.2 ⟨hid, hrest⟩⟩
        rw [ht]
        simp [applyAll]

/-- A round that is refused has fired a chain that comes back to the origin. -/
theorem round_eq_error {origin : String} {t : Trail} {rules : List Rule} {cycle : List String}
    (h : round origin t rules = .error cycle) :
    ∃ chain, chain <+: firing rules t.text ∧ cycle = t.ids.reverse ++ chain.map (·.id) ∧
      ∃ r ∈ chain, r.id = origin := by
  induction rules generalizing t with
  | nil => contradiction
  | cons r rest ih =>
    rw [round, r.changed_apply] at h
    rw [firing]
    by_cases hstill : (r.apply t.text .bare).text = t.text
    · rw [if_pos (by simp [hstill])] at h
      rw [if_pos hstill]
      exact ih h
    · rw [if_neg (by simpa using hstill)] at h
      rw [if_neg hstill]
      split at h
      next hid =>
        refine ⟨[r], (List.prefix_cons_inj r).2 List.nil_prefix, ?_, r, List.mem_cons_self, hid⟩
        rw [← Except.error.inj h]
        simp
      next hid =>
        obtain ⟨chain, hfront, rfl, q, hq, hqid⟩ := ih h
        refine ⟨r :: chain, (List.prefix_cons_inj r).2 hfront, ?_, q, List.mem_cons_of_mem r hq,
          hqid⟩
        simp

/-- Rounds that are refused have fired a chain that comes back to the origin, or at least once in
each of them. -/
theorem settle_eq_error {fixers : List Rule} {origin : String} {n : Nat} {t : Trail}
    {cycle : List String} (h : settle fixers origin n t = .error cycle) :
    ∃ chain, chain <+: firings fixers n t.text ∧ cycle = t.ids.reverse ++ chain.map (·.id) ∧
      ((∃ r ∈ chain, r.id = origin) ∨ n ≤ chain.length) := by
  induction n generalizing t with
  | zero => exact ⟨[], List.nil_prefix, by simpa [settle, eq_comm] using h, .inr (Nat.le_refl 0)⟩
  | succ n ih =>
    rw [settle] at h
    rw [firings]
    split at h
    next cycle' hround =>
      obtain rfl := Except.error.inj h
      obtain ⟨chain, hfront, hcycle, hback⟩ := round_eq_error hround
      exact ⟨chain, hfront.trans (List.prefix_append ..), hcycle, .inl hback⟩
    next t' hround =>
      obtain ⟨rfl, -⟩ := round_eq_ok hround
      split at h
      · contradiction
      next hlength =>
        obtain ⟨chain, hfront, rfl, hend⟩ := ih h
        have hfired : 0 < (firing fixers t.text).length := by
          simp only [List.length_append, List.length_reverse, List.length_map] at hlength
          omega
        refine ⟨firing fixers t.text ++ chain, (List.prefix_append_right_inj _).2 hfront, ?_, ?_⟩
        · simp
        · rcases hend with ⟨r, hr, hid⟩ | hle
          · exact .inl ⟨r, List.mem_append_right _ hr, hid⟩
          · refine .inr ?_
            rw [List.length_append]
            omega

end SourceMend.Cycle
