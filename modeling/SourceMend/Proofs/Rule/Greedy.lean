import Mathlib.Order.Bounds.Basic
import SourceMend.Proofs.Rule.Sites

/-!
The greedy selection. Among the matches that a rule may replace it takes the first one, then the
first one that starts behind it, and so on. There is one such selection only, so a match that is
rejected, however long, hides none that is admitted.
-/
namespace SourceMend

open Pattern (Match Place)

/-- Byte `p` lies in one of the ranges. -/
def Covered (ranges : List (Nat × Nat)) (p : Nat) : Prop := ∃ e ∈ ranges, e.1 ≤ p ∧ p < e.2

/-- The ranges are chosen from left to right: each starts at the first place that those before it do
not cover and at which a range is admitted, and in the end no such place is left. -/
structure Greedy (Admits : Nat → Nat → Prop) (ranges : List (Nat × Nat)) : Prop where
  covers : ∀ p q, Admits p q → Covered ranges p
  first : ∀ front e back, ranges = front ++ e :: back → Admits e.1 e.2 ∧
    IsLeast {p | (∃ q, Admits p q) ∧ ¬ Covered front p} e.1

namespace Greedy

variable {Admits : Nat → Nat → Prop} {ranges other : List (Nat × Nat)}

/-- Where every range has one end, the greedy selection is the only one. -/
theorem unique (hend : ∀ p q q', Admits p q → Admits p q' → q = q') (h : Greedy Admits ranges)
    (h' : Greedy Admits other) : ranges = other := by
  suffices hrest : ∀ back front other', ranges = front ++ back → other = front ++ other' →
      back = other' from hrest ranges [] other rfl rfl
  intro back
  induction back with
  | nil =>
    intro front other' hr ho
    cases other' with
    | nil => rfl
    | cons e other' =>
      obtain ⟨hadmits, ⟨-, hnot⟩, -⟩ := h'.first front e other' ho
      rw [List.append_nil] at hr
      exact absurd (hr ▸ h.covers _ _ hadmits) hnot
  | cons e back ih =>
    intro front other' hr ho
    obtain ⟨hadmits, hleast⟩ := h.first front e back hr
    cases other' with
    | nil =>
      rw [List.append_nil] at ho
      exact absurd (ho ▸ h'.covers _ _ hadmits) hleast.1.2
    | cons e' other' =>
      obtain ⟨hadmits', hleast'⟩ := h'.first front e' other' ho
      have hstart : e.1 = e'.1 := hleast.unique hleast'
      obtain rfl : e = e' := Prod.ext hstart (hend _ _ _ hadmits (hstart ▸ hadmits'))
      rw [ih (front ++ [e]) other' (by simpa using hr) (by simpa using ho)]

/-- The first range of all, and the selection from those behind it. -/
theorem cons {Behind : Nat → Nat → Prop} {e : Nat × Nat} (h : Greedy Behind ranges)
    (hbehind : ∀ p q, Behind p q ↔ Admits p q ∧ e.2 ≤ p) (he : Admits e.1 e.2) (hne : e.1 < e.2)
    (hle : ∀ p q, Admits p q → e.1 ≤ p) : Greedy Admits (e :: ranges) where
  covers := by
    intro p q hadmits
    by_cases hin : p < e.2
    · exact ⟨e, List.mem_cons_self, hle p q hadmits, hin⟩
    · obtain ⟨f, hf, hcov⟩ := h.covers p q ((hbehind p q).2 ⟨hadmits, by omega⟩)
      exact ⟨f, List.mem_cons_of_mem _ hf, hcov⟩
  first := by
    intro front f back hsplit
    cases front with
    | nil =>
      obtain ⟨rfl, -⟩ : e = f ∧ ranges = back := by simpa using hsplit
      exact ⟨he, ⟨⟨_, he⟩, by simp [Covered]⟩, fun p ⟨⟨q, hq⟩, _⟩ => hle p q hq⟩
    | cons e' front =>
      obtain ⟨rfl, hrest⟩ : e = e' ∧ ranges = front ++ f :: back := by simpa using hsplit
      obtain ⟨hadmits, ⟨⟨q, hq⟩, hnot⟩, hleast⟩ := h.first front f back hrest
      obtain ⟨hadmits, hpos⟩ := (hbehind _ _).1 hadmits
      refine ⟨hadmits, ⟨⟨q, ((hbehind _ _).1 hq).1⟩, ?_⟩, ?_⟩
      · rintro ⟨g, hg, hcov⟩
        rcases List.mem_cons.1 hg with rfl | hg
        · omega
        · exact hnot ⟨g, hg, hcov⟩
      · rintro p ⟨⟨q', hq'⟩, hfree⟩
        have hp : e.2 ≤ p := by
          by_contra hin
          exact hfree ⟨e, List.mem_cons_self, hle p q' hq', by omega⟩
        refine hleast ⟨⟨q', (hbehind p q').2 ⟨hq', hp⟩⟩, ?_⟩
        rintro ⟨g, hg, hcov⟩
        exact hfree ⟨g, List.mem_cons_of_mem _ hg, hcov⟩

end Greedy

namespace Rule

variable (r : Rule) (scope : ScopeMap)

/-- From byte `p` up to byte `q` of the text the pattern has a match that the rule may replace. -/
def Admits (text : Text) (p q : Nat) : Prop :=
  ∃ before after m, text = before ++ after ∧ Text.size before = p ∧
    r.pattern.matchAt (.between before after) = some m ∧ m.isEmpty = false ∧
    r.placement scope m = .admitted ∧ m.stop.pos = q

/-- One of the places has an admitted match from byte `p` up to byte `q`. -/
def AdmitsIn (places : List Place) (p q : Nat) : Prop :=
  ∃ place ∈ places, place.cursor.pos = p ∧ ∃ m, r.admittedAt? scope place = some m ∧ m.stop.pos = q

/-- The bytes from the start of a match up to its end. -/
def range (m : Match) : Nat × Nat := (m.start.pos, m.stop.pos)

/-- The matches that are replaced are the greedy selection. -/
theorem greedy_rewritesFrom {places : List Place} (h : Surveyed places) :
    Greedy (r.AdmitsIn scope places) ((r.rewritesFrom scope places).map range) := by
  fun_induction rewritesFrom r scope places with
  | case1 =>
    refine ⟨?_, by simp⟩
    rintro p q ⟨place, hplace, -⟩
    simp at hplace
  | case2 place rest hnone ih =>
    have hrest := h.of_sublist (List.sublist_cons_self place rest)
    have hsame : r.AdmitsIn scope (place :: rest) = r.AdmitsIn scope rest := by
      funext p q
      simp [AdmitsIn, hnone]
    rw [hsame]
    exact ih hrest
  | case3 place rest m hsome ih =>
    have hrest := h.of_sublist (List.sublist_cons_self place rest)
    obtain ⟨hstart, hlt⟩ := h.of_matchAt? List.mem_cons_self
      ((r.admittedAt?_eq_some_iff scope).1 hsome).1
    refine (ih (hrest.placesFrom _)).cons (e := range m) (fun p q => ⟨?_, ?_⟩) ?_ hlt ?_
    · rintro ⟨other, hother, rfl, hfound⟩
      obtain ⟨hmem, hle⟩ := hrest.mem_placesFrom_iff.1 hother
      exact ⟨⟨other, List.mem_cons_of_mem _ hmem, rfl, hfound⟩, hle⟩
    · rintro ⟨⟨other, hother, rfl, hfound⟩, hle⟩
      rcases List.mem_cons.1 hother with rfl | hother
      · rw [hstart] at hlt
        exact absurd hle (Nat.not_le_of_lt hlt)
      · exact ⟨other, hrest.mem_placesFrom_iff.2 ⟨hother, hle⟩, rfl, hfound⟩
    · exact ⟨place, List.mem_cons_self, congrArg Pattern.Cursor.pos hstart.symm, m, hsome, rfl⟩
    · rintro p q ⟨other, hother, rfl, -⟩
      rw [range, hstart]
      rcases List.mem_cons.1 hother with rfl | hother
      · exact Nat.le_refl _
      · exact (List.pairwise_cons.1 h.sorted).1 other hother

theorem admitsIn_places (text : Text) :
    r.AdmitsIn scope (r.places text) = r.Admits scope text := by
  funext p q
  refine propext ⟨?_, ?_⟩
  · rintro ⟨place, hplace, rfl, m, hm, rfl⟩
    obtain ⟨before, after, rfl, rfl⟩ := r.exists_between_of_mem_places hplace
    obtain ⟨hmatch, hadmitted⟩ := (r.admittedAt?_eq_some_iff scope).1 hm
    obtain ⟨hfound, hne⟩ := Option.filter_eq_some_iff.1 hmatch
    exact ⟨before, after, m, rfl, rfl, hfound, by simpa using hne, hadmitted, rfl⟩
  · rintro ⟨before, after, m, rfl, rfl, hfound, hne, hadmitted, rfl⟩
    refine ⟨_, r.mem_places before after, rfl, m, ?_, rfl⟩
    exact (r.admittedAt?_eq_some_iff scope).2 ⟨by simp [matchAt?, hfound, hne], hadmitted⟩

theorem admits_end {text : Text} {p q q' : Nat} (h : r.Admits scope text p q)
    (h' : r.Admits scope text p q') : q = q' := by
  obtain ⟨before, after, m, rfl, rfl, hm, -, -, rfl⟩ := h
  obtain ⟨before', after', m', htext, hsize, hm', -, -, rfl⟩ := h'
  obtain ⟨rfl, rfl⟩ : before' = before ∧ after' = after := by
    have htake := Text.takeBytes_size_append before' after'
    have hdrop := Text.dropBytes_size_append before' after'
    rw [← htext, hsize, Text.takeBytes_size_append] at htake
    rw [← htext, hsize, Text.dropBytes_size_append] at hdrop
    exact ⟨htake.symm, hdrop.symm⟩
  obtain rfl : m = m' := Option.some.inj (hm.symm.trans hm')
  rfl

/-- A rule that fixes replaces the greedy selection of its admitted matches: each of them starts in
a range that is replaced, each range starts at the first admitted match that is not covered by those
before it, and no other selection is like that. -/
theorem apply_greedy {r : Rule} {own : String} (h : r.replacement = some own) (text : Text)
    (ctx : Context) :
    let scope := ScopeMap.scan text ctx.dialect
    let edits := r.replacements scope own ctx.path text
    let ranges := edits.map fun e => (e.start, e.stop)
    (r.apply text ctx).text = Text.splice 0 text edits ∧ (r.apply text ctx).fired = edits.length ∧
    (∀ p q, r.Admits scope text p q → Covered ranges p) ∧
    (∀ front e back, ranges = front ++ e :: back → r.Admits scope text e.1 e.2 ∧
      IsLeast {p | (∃ q, r.Admits scope text p q) ∧ ¬ Covered front p} e.1) ∧
    ∀ other, Greedy (r.Admits scope text) other → other = ranges := by
  intro scope edits ranges
  have hfix : r.isFix = true := by simp [isFix, h]
  have hgreedy : Greedy (r.Admits scope text) ranges := by
    have hranges : ranges = (r.rewrites scope text).map range := by
      simp only [ranges, edits, replacements, List.map_map]
      rfl
    rw [hranges, ← r.admitsIn_places scope text]
    exact r.greedy_rewritesFrom scope (r.surveyed_places text)
  refine ⟨apply_eq_splice h text ctx, ?_, hgreedy.covers, hgreedy.first, fun other hother => ?_⟩
  · rw [fired_eq_length hfix, ← List.length_map (f := r.replacementAt own ctx.path)]
    rfl
  · have hend (p q q' : Nat) (h : r.Admits scope text p q) (h' : r.Admits scope text p q') :
        q = q' := r.admits_end scope h h'
    exact hother.unique hend hgreedy

end Rule

/-- Takes a stroke away from a word in code. -/
def strokeRule : Rule where
  id := "stroke"
  category := "demo"
  pattern := {
    source := "\"x!\" y|[xyz]!"
    node := .alt (.literal "\"x!\" y".toList) (.seq (.one [(120, 122)]) (.literal ['!']))
    groupNames := [none] }
  replacement := some "w"

/-- The match from the quote on is rejected, since it touches the string. It hides neither of the
admitted matches, the first of which starts inside it. -/
theorem Rule.apply_greedy_stroke :
    strokeRule.replacement = some "w" ∧
    (strokeRule.apply "\"x!\" y! z!".toList .bare).text = "\"x!\" w w".toList ∧
    ∃ ranges, Greedy (strokeRule.Admits (ScopeMap.scan "\"x!\" y! z!".toList .script)
        "\"x!\" y! z!".toList) ranges ∧ ranges.length = 2 ∧
      ∀ other, Greedy (strokeRule.Admits (ScopeMap.scan "\"x!\" y! z!".toList .script)
        "\"x!\" y! z!".toList) other → other = ranges := by
  obtain ⟨-, hfired, hcovers, hfirst, hunique⟩ :=
    Rule.apply_greedy (r := strokeRule) rfl "\"x!\" y! z!".toList .bare
  refine ⟨rfl, by decide +kernel, _, ⟨hcovers, hfirst⟩, ?_, hunique⟩
  rw [List.length_map, ← hfired]
  decide +kernel

end SourceMend
