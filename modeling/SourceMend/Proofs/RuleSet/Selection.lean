import SourceMend.Proofs.RuleSet.Duplicates

/-!
What a rule set is made of. A draft selects the first rule of each id, keeps those that are active,
and lets each of them gain the overrides that name it. Building returns this selection or fails, and
it fails when a rule is named that is not in the draft.
-/
namespace SourceMend

/-- The first of the rules with each id, in order. -/
def firstOfEach : List Rule → List Rule
  | [] => []
  | r :: rest => r :: (firstOfEach rest).filter (·.id ≠ r.id)

theorem mem_of_mem_firstOfEach {rules : List Rule} {r : Rule} (h : r ∈ firstOfEach rules) :
    r ∈ rules := by
  induction rules with
  | nil => exact h
  | cons first rest ih =>
    rcases List.mem_cons.1 h with rfl | h
    · exact List.mem_cons_self
    · exact List.mem_cons_of_mem _ (ih (List.mem_filter.1 h).1)

theorem nodup_ids_firstOfEach (rules : List Rule) : ((firstOfEach rules).map (·.id)).Nodup := by
  induction rules with
  | nil => exact List.nodup_nil
  | cons r rest ih =>
    rw [firstOfEach, List.map_cons, List.nodup_cons]
    refine ⟨fun hmem => ?_, ih.sublist (List.filter_sublist.map _)⟩
    obtain ⟨k, hk, hid⟩ := List.mem_map.1 hmem
    simpa [hid] using (List.mem_filter.1 hk).2

/-- It makes no difference whether rules are left out before or after the first ones are taken, as
long as rules with one id stay or go together. -/
theorem firstOfEach_filter {p : Rule → Bool} {rules : List Rule}
    (hp : ∀ r ∈ rules, ∀ q ∈ rules, r.id = q.id → p r = p q) :
    firstOfEach (rules.filter p) = (firstOfEach rules).filter p := by
  induction rules with
  | nil => rfl
  | cons r rest ih =>
    have hrest := ih fun a ha b hb =>
      hp a (List.mem_cons_of_mem _ ha) b (List.mem_cons_of_mem _ hb)
    cases hr : p r with
    | true =>
      rw [List.filter_cons_of_pos hr, firstOfEach, firstOfEach, List.filter_cons_of_pos hr, hrest,
        List.filter_filter, List.filter_filter]
      simp only [Bool.and_comm]
    | false =>
      have hr' : ¬ p r = true := by simp [hr]
      rw [List.filter_cons_of_neg hr', firstOfEach, List.filter_cons_of_neg hr', hrest,
        List.filter_filter]
      refine List.filter_congr fun q hq => ?_
      by_cases hid : q.id = r.id
      · have hq' := mem_of_mem_firstOfEach hq
        rw [hp q (List.mem_cons_of_mem _ hq') r List.mem_cons_self hid, hr, Bool.false_and]
      · simp [hid]

/-- The rule with those of the given overrides that are for it behind its own. -/
def Rule.gain (given : List (String × Override)) (r : Rule) : Rule :=
  { r with overrides := r.overrides ++ (given.filter (·.1 = r.id)).map (·.2) }

namespace Rule

@[simp] theorem id_gain (r : Rule) (given : List (String × Override)) : (r.gain given).id = r.id :=
  rfl

theorem gain_of_forall_ne {r : Rule} {given : List (String × Override)}
    (h : ∀ e ∈ given, e.1 ≠ r.id) : r.gain given = r := by
  have hnone : given.filter (·.1 = r.id) = [] :=
    List.filter_eq_nil_iff.2 fun e he => by simpa using h e he
  rw [gain, hnone, List.map_nil, List.append_nil]

theorem gain_append (r : Rule) (a b : List (String × Override)) :
    r.gain (a ++ b) = (r.gain a).gain b := by
  rw [gain, List.filter_append, List.map_append, ← List.append_assoc]
  rfl

end Rule

namespace RuleDraft

/-- The rules that a draft stands for. -/
def selection (d : RuleDraft) : List Rule :=
  ((firstOfEach d.rules).filter d.isActive).map (Rule.gain d.overrides)

/-- The ids by which a draft speaks of rules. -/
def Mentions (d : RuleDraft) (id : String) : Prop :=
  id ∈ d.enable ∨ id ∈ d.disable ∨ ∃ o, (id, o) ∈ d.overrides

/-- Folding leaves the first of the rules with each id that is not there yet. -/
theorem dedupe_eq_ok {rules kept out : List Rule} (h : dedupe kept rules = .ok out) :
    out = kept ++ (firstOfEach rules).filter fun r => !kept.any (·.id = r.id) := by
  induction rules generalizing kept with
  | nil =>
    obtain rfl := Except.ok.inj h
    simp [firstOfEach]
  | cons r rest ih =>
    rw [dedupe] at h
    split at h
    · next old hold =>
      have hr : kept.any (·.id = r.id) = true :=
        List.any_eq_true.2 ⟨old, List.mem_of_find?_eq_some hold,
          by simpa using List.find?_some hold⟩
      split at h
      · rw [ih h, firstOfEach, List.filter_cons_of_neg (by simp [hr]), List.filter_filter]
        refine congrArg _ (List.filter_congr fun q _ => ?_)
        by_cases hid : q.id = r.id
        · rw [hid, hr, Bool.not_true, Bool.false_and]
        · simp [hid]
      · contradiction
    · next hnone =>
      have hr : kept.any (·.id = r.id) = false := by
        simpa using hnone
      rw [ih h, firstOfEach, List.filter_cons_of_pos (by simp [hr]), List.append_assoc,
        List.filter_filter]
      refine congrArg _ (congrArg _ (List.filter_congr fun q _ => ?_))
      simp [eq_comm]

theorem overrideIn_eq_ok {id : String} {o : Override} {rules out : List Rule}
    (hids : (rules.map (·.id)).Nodup) (h : overrideIn id o rules = .ok out) :
    out = rules.map (Rule.gain [(id, o)]) := by
  induction rules generalizing out with
  | nil =>
    obtain rfl := Except.ok.inj h
    rfl
  | cons r rest ih =>
    rw [List.map_cons, List.nodup_cons] at hids
    rw [overrideIn] at h
    split at h
    next hid =>
      obtain ⟨r', hr', rfl⟩ := eq_ok_of_map h
      have hrest : rest.map (Rule.gain [(id, o)]) = rest := by
        refine (List.map_congr_left fun q hq => ?_).trans (List.map_id rest)
        have hne : id ≠ q.id := fun he => hids.1 (hid ▸ he ▸ List.mem_map_of_mem hq)
        exact Rule.gain_of_forall_ne (by simpa using hne)
      rw [List.map_cons, hrest, Rule.withOverride_eq_ok hr']
      simp [Rule.gain, hid]
    next hid =>
      obtain ⟨rest', hrest', rfl⟩ := eq_ok_of_map h
      have hr : r.gain [(id, o)] = r := Rule.gain_of_forall_ne (by simpa using Ne.symm hid)
      rw [List.map_cons, hr, ih hids.2 hrest']

/-- Attaching overrides lets the active rules gain them. Each is for a rule that there is. -/
theorem attachAll_eq_ok {inactive active out : List Rule} {given : List (String × Override)}
    (hids : (active.map (·.id)).Nodup) (h : attachAll inactive active given = .ok out) :
    out = active.map (Rule.gain given) ∧
      ∀ e ∈ given, e.1 ∈ active.map (·.id) ∨ e.1 ∈ inactive.map (·.id) := by
  induction given generalizing active with
  | nil =>
    obtain rfl := Except.ok.inj h
    refine ⟨?_, fun e he => absurd he List.not_mem_nil⟩
    exact ((List.map_congr_left fun r _ => r.gain_of_forall_ne (by simp)).trans
      (List.map_id active)).symm
  | cons e rest ih =>
    have hsplit (r : Rule) : r.gain (e :: rest) = (r.gain [e]).gain rest := r.gain_append [e] rest
    rw [attachAll] at h
    split at h
    next hactive =>
      obtain ⟨next, hnext, h⟩ := eq_ok_of_bind h
      obtain rfl := overrideIn_eq_ok hids hnext
      have hkept : (active.map (Rule.gain [e])).map (·.id) = active.map (·.id) := by
        simp [Function.comp_def]
      obtain ⟨rfl, hrest⟩ := ih (hkept ▸ hids) h
      refine ⟨?_, List.forall_mem_cons.2 ⟨.inl ?_, fun e' he' => hkept ▸ hrest e' he'⟩⟩
      · simp [Function.comp_def, hsplit]
      · simpa using hactive
    next hactive =>
      split at h
      next hinactive =>
        obtain ⟨rfl, hrest⟩ := ih hids h
        refine ⟨?_, List.forall_mem_cons.2 ⟨.inr (by simpa using hinactive), hrest⟩⟩
        have hne : ∀ r ∈ active, r.id ≠ e.1 := by simpa using hactive
        refine List.map_congr_left fun r hr => ?_
        have hr' : r.gain [e] = r := Rule.gain_of_forall_ne (by simpa using (hne r hr).symm)
        rw [hsplit, hr']
      · contradiction

theorem least?_eq_none {ids : List String} (h : least? ids = none) : ids = [] := by
  cases ids with
  | nil => rfl
  | cons first rest =>
    rw [least?] at h
    split at h
    · split at h <;> contradiction
    · contradiction

theorem mem_ids_of_checkKnown {rules : List Rule} {ids : List String} {context : String}
    (h : checkKnown rules ids context = .ok ()) {id : String} (hid : id ∈ ids) :
    id ∈ rules.map (·.id) := by
  unfold checkKnown at h
  split at h
  · contradiction
  next hnone =>
    have hall := List.filter_eq_nil_iff.1 (least?_eq_none hnone) id hid
    simpa using hall

/-- Building up to the cycle check: the rules that would make up the set. -/
def prepared (d : RuleDraft) : Except RuleError (List Rule) := do
  let rules ← dedupe [] d.rules
  checkKnown rules d.enable "rules.enable"
  checkKnown rules d.disable "rules.disable"
  (rules.filter d.isActive).forM Rule.checkExamples
  attachAll (rules.filter (!d.isActive ·)) (rules.filter d.isActive) d.overrides

theorem build_eq_prepared (d : RuleDraft) : d.build = (do
    let rules ← d.prepared
    Cycle.check rules
    return { version := d.version.getD 1, rules }) := by
  simp only [build, prepared, bind_assoc]

/-- What is prepared is the selection, and the draft mentions its own rules only. -/
theorem prepared_eq_ok {d : RuleDraft} {rules : List Rule} (h : d.prepared = .ok rules) :
    rules = d.selection ∧ ∀ id, d.Mentions id → ∃ r ∈ d.rules, r.id = id := by
  obtain ⟨kept, hkept, h⟩ := eq_ok_of_bind h
  obtain ⟨⟨⟩, henable, h⟩ := eq_ok_of_bind h
  obtain ⟨⟨⟩, hdisable, h⟩ := eq_ok_of_bind h
  obtain ⟨⟨⟩, -, h⟩ := eq_ok_of_bind h
  obtain rfl : kept = firstOfEach d.rules :=
    (dedupe_eq_ok hkept).trans (List.filter_eq_self.2 fun _ _ => rfl)
  have hids := (nodup_ids_firstOfEach d.rules).sublist
    ((List.filter_sublist (p := d.isActive)).map (·.id))
  obtain ⟨rfl, hover⟩ := attachAll_eq_ok hids h
  refine ⟨rfl, fun id hid => ?_⟩
  have hmem : id ∈ (firstOfEach d.rules).map (·.id) := by
    rcases hid with hid | hid | ⟨o, ho⟩
    · exact mem_ids_of_checkKnown henable hid
    · exact mem_ids_of_checkKnown hdisable hid
    · exact (hover _ ho).elim (fun h => (List.filter_sublist.map _).subset h)
        fun h => (List.filter_sublist.map _).subset h
  obtain ⟨r, hr, rfl⟩ := List.mem_map.1 hmem
  exact ⟨r, mem_of_mem_firstOfEach hr, rfl⟩

/-- A rule set that was built is the selection of its draft, and has passed the cycle check. -/
theorem build_eq_ok {d : RuleDraft} {s : RuleSet} (h : d.build = .ok s) :
    s = ⟨d.version.getD 1, d.selection⟩ ∧ Cycle.check d.selection = .ok () ∧
      ∀ id, d.Mentions id → ∃ r ∈ d.rules, r.id = id := by
  rw [build_eq_prepared] at h
  obtain ⟨rules, hrules, h⟩ := eq_ok_of_bind h
  obtain ⟨⟨⟩, hcheck, h⟩ := eq_ok_of_bind h
  obtain ⟨rfl, hmentions⟩ := prepared_eq_ok hrules
  exact ⟨(Except.ok.inj h).symm, hcheck, hmentions⟩

theorem nodup_ids_selection (d : RuleDraft) : (d.selection.map (·.id)).Nodup := by
  have hids : d.selection.map (·.id) = ((firstOfEach d.rules).filter d.isActive).map (·.id) := by
    simp [selection, Function.comp_def]
  rw [hids]
  exact (nodup_ids_firstOfEach d.rules).sublist (List.filter_sublist.map _)

/-- In a rule set that was built no two rules have the same id. -/
theorem nodup_ids_build {d : RuleDraft} {s : RuleSet} (h : d.build = .ok s) :
    (s.rules.map (·.id)).Nodup := by
  obtain ⟨rfl, -⟩ := build_eq_ok h
  exact d.nodup_ids_selection

/-- Of rules that were folded, those with one id are all active or all not. -/
theorem isActive_eq_of_dedupe {d : RuleDraft} {kept : List Rule}
    (h : dedupe [] d.rules = .ok kept) {r q : Rule} (hr : r ∈ d.rules) (hq : q ∈ d.rules)
    (hid : r.id = q.id) : d.isActive r = d.isActive q := by
  obtain ⟨k, hk, hkr⟩ := sameDefinition_of_dedupe h hr
  obtain ⟨k', hk', hkq⟩ := sameDefinition_of_dedupe h hq
  rw [hid, hk'] at hk
  obtain rfl := Option.some.inj hk
  obtain ⟨-, -, -, -, -, -, henabled⟩ := Rule.sameDefinition_iff.1 hkr
  obtain ⟨-, -, -, -, -, -, henabled'⟩ := Rule.sameDefinition_iff.1 hkq
  rw [isActive, isActive, hid, ← henabled, ← henabled']

/-- Building returns the selection of a draft: the first rule of each id, if it is active, with the
overrides for it behind its own. It is the same to take the first of the active rules. All ids that
the draft mentions are those of its rules; if one is not, building fails. -/
theorem build_selects (d : RuleDraft) :
    (∀ s, d.build = .ok s →
      (s.rules.map (·.id)).Nodup ∧ s = ⟨d.version.getD 1, d.selection⟩ ∧
      firstOfEach (d.rules.filter d.isActive) = (firstOfEach d.rules).filter d.isActive ∧
      ∀ id, d.Mentions id → ∃ r ∈ d.rules, r.id = id) ∧
    ∀ id, d.Mentions id → (∀ r ∈ d.rules, r.id ≠ id) → ∃ cause, d.build = .error cause := by
  constructor
  · intro s hs
    obtain ⟨kept, hkept, -⟩ := eq_ok_of_bind hs
    obtain ⟨hselection, -, hmentions⟩ := build_eq_ok hs
    refine ⟨nodup_ids_build hs, hselection, ?_, hmentions⟩
    exact firstOfEach_filter fun r hr q hq hid => isActive_eq_of_dedupe hkept hr hq hid
  · intro id hid hnone
    cases hs : d.build with
    | error cause => exact ⟨cause, rfl⟩
    | ok s =>
      obtain ⟨r, hr, hrid⟩ := (build_eq_ok hs).2.2 id hid
      exact absurd hrid (hnone r hr)

end RuleDraft

/-- The second rule is a duplicate, and the third and fourth ones are off; of the overrides the
first and the last are for the first rule. -/
def mixedDraft : RuleDraft where
  rules := [lettersRule, lettersRule, { lettersRule with id := "off", enabled := false },
    { lettersRule with id := "gone" }, { lettersRule with id := "on", enabled := false }]
  enable := ["on"]
  disable := ["gone"]
  overrides := [("letters", { equals := some "a", replacement := "y" }),
    ("off", { replacement := "z" }), ("letters", { replacement := "w" })]

theorem build_selects_mixed :
    ∃ s, mixedDraft.build = .ok s ∧
      s.rules.map (fun r => (r.id, r.overrides.map (·.replacement))) =
        [("letters", ["y", "w"]), ("on", [])] ∧
      (s.rules.map (·.id)).Nodup ∧ s = ⟨1, mixedDraft.selection⟩ ∧
      (RuleDraft.Mentions { mixedDraft with disable := ["none"] } "none" ∧
        ∃ cause, RuleDraft.build { mixedDraft with disable := ["none"] } = .error cause) := by
  have hsome : mixedDraft.build.toOption.isSome = true := by decide +kernel
  cases hs : mixedDraft.build with
  | error cause =>
    rw [hs] at hsome
    contradiction
  | ok s =>
    obtain ⟨hnodup, rfl, -⟩ := mixedDraft.build_selects.1 s hs
    have hmentions : RuleDraft.Mentions { mixedDraft with disable := ["none"] } "none" :=
      .inr (.inl List.mem_cons_self)
    exact ⟨_, rfl, by decide +kernel, hnodup, rfl, hmentions,
      (RuleDraft.build_selects _).2 "none" hmentions (by decide +kernel)⟩

end SourceMend
