import SourceMend.Proofs.Pattern.Meaning
import SourceMend.Rule.Apply

/-!
Rewriting. Applying a rule cuts the text into characters that stay and admitted matches that are
replaced. What a rule does to a text is then shown edit by edit, without the places and cursors
through which the matches are found.
-/
namespace SourceMend
namespace Pattern.Cursor

/-- The place between two parts of a text. -/
def between (before after : Text) : Cursor := ⟨before.getLast?, after, Text.size before⟩

theorem Reads.between {before after s : Text} {l : Cursor}
    (h : (between before after).Reads s l) :
    after = s ++ l.rest ∧ l = Cursor.between (before ++ s) l.rest := by
  obtain ⟨hr, hp, hv⟩ := h
  refine ⟨hr, ?_⟩
  obtain ⟨prev, rest, pos⟩ := l
  obtain rfl : prev = _ := hv
  obtain rfl : pos = _ := hp
  simp [Cursor.between, List.getLast?_append]

theorem reads_between (before s after : Text) :
    (between before (s ++ after)).Reads s (between (before ++ s) after) :=
  ⟨rfl, by simp [between], by simp [between, List.getLast?_append]⟩

theorem places_between_cons (before : Text) (c : Char) (after : Text) :
    (between before (c :: after)).places =
      between before (c :: after) :: (between (before ++ [c]) after).places := by
  rw [places_cons (by simp [between])]
  simp [between, advance]

end Pattern.Cursor

open Pattern (Cursor Match Place)

/-- Behind the text `before`, the first text becomes the second by `n` edits side by side. An edit
`Edit before old new after` puts `new` in the place of `old`. -/
inductive Rewritten (Edit : Text → Text → Text → Text → Prop) : Text → Text → Text → Nat → Prop
  | done (before : Text) : Rewritten Edit before [] [] 0
  | keep {before rest out : Text} {n : Nat} (c : Char) :
    Rewritten Edit (before ++ [c]) rest out n → Rewritten Edit before (c :: rest) (c :: out) n
  | edit {before old new rest out : Text} {n : Nat} : Edit before old new rest →
    Rewritten Edit (before ++ old) rest out n →
    Rewritten Edit before (old ++ rest) (new ++ out) (n + 1)

theorem Rewritten.eq_of_zero {Edit : Text → Text → Text → Text → Prop} {before text out : Text}
    {n : Nat} (h : Rewritten Edit before text out n) (hn : n = 0) : out = text := by
  induction h with
  | done => rfl
  | keep c _ ih => rw [ih hn]
  | edit => omega

/-- What lies behind a piece of a text is shorter than the text. -/
theorem Text.length_lt_of_eq_append {text old after : Text} (h : text = old ++ after)
    (hne : old ≠ []) : after.length < text.length := by
  have hpos := List.length_pos_iff.2 hne
  rw [h, List.length_append]
  omega

namespace Rule

variable (r : Rule) (own path : String) (scope : ScopeMap)

/-- The rule replaces the admitted match `old` between `before` and `after` by `new`. -/
def Replaces (before old new after : Text) : Prop :=
  ∃ m : Match, r.pattern.node.program.find? (.between before (old ++ after)) = some m ∧
    m.stop = .between (before ++ old) after ∧ old ≠ [] ∧ r.placement scope m = .admitted ∧
    new = r.replacementFor own path m

/-- The places behind the text `before`. -/
def placesBehind (before rest : Text) : List Place :=
  (Cursor.between before rest).places.map fun l => ⟨l, r.pattern.node.program.find? l⟩

theorem places_eq (text : Text) : r.places text = r.placesBehind [] text :=
  r.pattern.node.program.survey_eq (Cursor.start text)

theorem placesBehind_nil (before : Text) : r.placesBehind before [] =
    [⟨.between before [], r.pattern.node.program.find? (.between before [])⟩] := rfl

theorem placesBehind_cons (before : Text) (c : Char) (rest : Text) :
    r.placesBehind before (c :: rest) =
      ⟨.between before (c :: rest), r.pattern.node.program.find? (.between before (c :: rest))⟩ ::
        r.placesBehind (before ++ [c]) rest := by
  rw [placesBehind, Cursor.places_between_cons]
  rfl

/-- Leaving out the places before the end of a piece leaves those behind the piece. -/
theorem placesFrom_placesBehind (before s rest : Text) :
    placesFrom (Text.size (before ++ s)) (r.placesBehind before (s ++ rest)) =
      r.placesBehind (before ++ s) rest := by
  induction s generalizing before with
  | nil =>
    have hstop (p : Place) (ps : List Place) (h : ¬ p.cursor.pos < Text.size before) :
        placesFrom (Text.size before) (p :: ps) = p :: ps := by
      simp [placesFrom, h]
    cases rest with
    | nil =>
      rw [List.append_nil]
      exact hstop _ [] (by simp [Cursor.between])
    | cons c rest =>
      simp only [List.append_nil, List.nil_append, placesBehind_cons]
      exact hstop _ _ (by simp [Cursor.between])
  | cons c s ih =>
    have hlt : Text.size before < Text.size (before ++ c :: s) := by
      have := Char.utf8Size_pos c
      simp only [Text.size_append, Text.size_cons]
      omega
    have hc : before ++ c :: s = before ++ [c] ++ s := by simp
    rw [List.cons_append, placesBehind_cons, placesFrom,
      List.dropWhile_cons_of_pos (by simpa [Cursor.between] using hlt), hc]
    exact ih (before ++ [c])

/-- A match behind the text `before` starts there and reads some of what follows. -/
theorem reads_of_matchAt? {before rest : Text} {m : Match}
    (h : matchAt? ⟨.between before rest,
      r.pattern.node.program.find? (.between before rest)⟩ = some m) :
    r.pattern.node.program.find? (.between before rest) = some m ∧ m.start = .between before rest ∧
      ∃ old after, old ≠ [] ∧ rest = old ++ after ∧ m.stop = .between (before ++ old) after := by
  simp only [matchAt?, Option.filter_eq_some_iff] at h
  obtain ⟨hm, hne⟩ := h
  obtain ⟨hs, hw⟩ := Pattern.find?_way hm
  obtain ⟨old, hr⟩ := hw.reads
  obtain ⟨hrest, hstop⟩ := hr.between
  refine ⟨hm, hs, old, m.stop.rest, ?_, hrest, hstop⟩
  rintro rfl
  rw [Match.isEmpty, hs, hr.eq_of_nil] at hne
  simp at hne

/-- The first and the last byte of a match. -/
theorem extent_of_matchAt? {before rest : Text} {m : Match} (h : matchAt? ⟨.between before rest,
      r.pattern.node.program.find? (.between before rest)⟩ = some m) :
    m.start.pos = Text.size before ∧
      ∃ old after, old ≠ [] ∧ rest = old ++ after ∧ m.stop.pos = Text.size (before ++ old) := by
  obtain ⟨-, hstart, old, after, hne, hrest, hstop⟩ := r.reads_of_matchAt? h
  refine ⟨by rw [hstart]; rfl, old, after, hne, hrest, ?_⟩
  rw [hstop]
  rfl

/-- An admitted match behind the text `before` is a replacement there. -/
theorem replaces_of_admittedAt? {before rest : Text} {m : Match}
    (h : r.admittedAt? scope ⟨.between before rest,
      r.pattern.node.program.find? (.between before rest)⟩ = some m) :
    ∃ old after, rest = old ++ after ∧ m.stop.pos = Text.size (before ++ old) ∧
      r.Replaces own path scope before old (r.replacementFor own path m) after := by
  obtain ⟨hmatch, hp⟩ := Option.filter_eq_some_iff.1 h
  obtain ⟨hm, -, old, after, hne, rfl, hstop⟩ := r.reads_of_matchAt? hmatch
  exact ⟨old, after, rfl, by rw [hstop]; rfl, m, hm, hstop, hne, by simpa using hp, rfl⟩

/-- Behind the whole text nothing is read. -/
theorem matchAt?_end (before : Text) : matchAt? ⟨.between before [],
    r.pattern.node.program.find? (.between before [])⟩ = none := by
  refine Option.eq_none_iff_forall_ne_some.2 fun m hm => ?_
  obtain ⟨-, -, old, after, hne, hrest, -⟩ := r.reads_of_matchAt? hm
  exact hne (List.append_eq_nil_iff.1 hrest.symm).1

theorem admittedAt?_end (before : Text) : r.admittedAt? scope ⟨.between before [],
    r.pattern.node.program.find? (.between before [])⟩ = none := by
  rw [admittedAt?, r.matchAt?_end]
  rfl

theorem mendFrom_end (before : Text) :
    r.mendFrom own path scope (r.placesBehind before []) = ([], 0) := by
  rw [placesBehind_nil, mendFrom, r.admittedAt?_end, mendFrom]
  rfl

/-- Leaving out the places inside `old`, the first of them left out already, leaves those behind
it. -/
theorem placesFrom_stop {before old after rest : Text} {c : Char} (ho : c :: rest = old ++ after)
    (hne : old ≠ []) :
    placesFrom (Text.size (before ++ old)) (r.placesBehind (before ++ [c]) rest) =
      r.placesBehind (before ++ old) after := by
  obtain ⟨d, s, rfl⟩ := List.exists_cons_of_ne_nil hne
  obtain ⟨rfl, rfl⟩ : c = d ∧ rest = s ++ after := by simpa using ho
  rw [show before ++ c :: s = before ++ [c] ++ s by simp]
  exact r.placesFrom_placesBehind (before ++ [c]) s after

/-- `mendFrom` rewrites what lies behind the text `before`. -/
theorem mendFrom_rewritten (before rest : Text) :
    Rewritten (r.Replaces own path scope) before rest
      (r.mendFrom own path scope (r.placesBehind before rest)).1
      (r.mendFrom own path scope (r.placesBehind before rest)).2 := by
  cases rest with
  | nil =>
    rw [r.mendFrom_end]
    exact .done before
  | cons c rest =>
    rw [placesBehind_cons, mendFrom]
    split
    · exact .keep c (mendFrom_rewritten (before ++ [c]) rest)
    · next m hm =>
      obtain ⟨old, after, ho, hpos, hr⟩ := r.replaces_of_admittedAt? own path scope hm
      have hne : old ≠ [] := hr.choose_spec.2.2.1
      have hlt := Text.length_lt_of_eq_append ho hne
      rw [hpos, r.placesFrom_stop ho hne, ho]
      exact .edit hr (mendFrom_rewritten (before ++ old) after)
termination_by rest.length
decreasing_by
  · exact Nat.lt_succ_self rest.length
  · exact hlt

theorem fired_mendFrom_eq_zero (places : List Place) (h : ∀ p ∈ places, p.found = none) :
    (r.mendFrom own path scope places).2 = 0 := by
  induction places with
  | nil => rw [mendFrom]
  | cons p rest ih =>
    obtain ⟨hp, hrest⟩ := List.forall_mem_cons.1 h
    have hnone : r.admittedAt? scope p = none := by simp [admittedAt?, matchAt?, hp]
    rw [mendFrom, hnone]
    exact ih hrest

theorem sitesFrom_eq_nil (reported : Nat) (places : List Place)
    (h : ∀ p ∈ places, p.found = none) : r.sitesFrom scope reported places = [] := by
  induction places with
  | nil => rw [sitesFrom]
  | cons p rest ih =>
    obtain ⟨hp, hrest⟩ := List.forall_mem_cons.1 h
    have hnone : matchAt? p = none := by simp [matchAt?, hp]
    rw [sitesFrom, hnone]
    exact ih hrest

section NoMatch

variable {r} {text : Text} (h : r.pattern.isMatch text = false)

include h

theorem found_eq_none_of_not_isMatch : ∀ p ∈ r.places text, p.found = none := by
  intro p hp
  simpa using List.any_eq_false.1 h p hp

theorem applyIn_of_not_isMatch (ctx : Context) : r.applyIn text scope ctx = ⟨text, 0, false⟩ := by
  unfold applyIn
  split
  · rfl
  · next own _ =>
    have hfired := r.fired_mendFrom_eq_zero own ctx.path scope _ (found_eq_none_of_not_isMatch h)
    have htext := r.mendFrom_rewritten own ctx.path scope [] text
    rw [← places_eq] at htext
    rw [Mended.mk.injEq]
    exact ⟨htext.eq_of_zero hfired, hfired, by simpa using htext.eq_of_zero hfired⟩

theorem matchSites_of_not_isMatch : r.matchSites text scope = [] :=
  r.sitesFrom_eq_nil scope 0 _ (found_eq_none_of_not_isMatch h)

end NoMatch

/-- Nothing is lost by looking first whether the pattern matches at all. -/
theorem apply_eq_applyIn (text : Text) (ctx : Context) :
    r.apply text ctx = r.applyIn text (ScopeMap.scan text ctx.dialect) ctx := by
  unfold apply
  split
  · rfl
  · next h =>
    cases hfix : r.isFix with
    | false =>
      have hnone : r.replacement = none := by simpa [isFix] using hfix
      rw [applyIn, hnone]
    | true => rw [applyIn_of_not_isMatch _ (by simpa [hfix] using h)]

/-- A rule that fixes rewrites the text by its admitted matches. -/
theorem apply_rewritten {r : Rule} {own : String} (h : r.replacement = some own) (text : Text)
    (ctx : Context) :
    Rewritten (r.Replaces own ctx.path (ScopeMap.scan text ctx.dialect)) [] text
      (r.apply text ctx).text (r.apply text ctx).fired := by
  have hr := r.mendFrom_rewritten own ctx.path (ScopeMap.scan text ctx.dialect) [] text
  simp only [apply_eq_applyIn, applyIn, h, places_eq]
  exact hr

theorem apply_text_of_fired_eq_zero {r : Rule} {text : Text} {ctx : Context}
    (h : (r.apply text ctx).fired = 0) : (r.apply text ctx).text = text := by
  cases hr : r.replacement with
  | none => simp only [apply_eq_applyIn, applyIn, hr]
  | some own => exact (apply_rewritten hr text ctx).eq_of_zero h

theorem changed_apply (text : Text) (ctx : Context) :
    (r.apply text ctx).changed = ((r.apply text ctx).text != text) := by
  simp only [apply_eq_applyIn, applyIn]
  split
  · simp
  · rfl

/-- When nothing is replaced, no match is admitted. -/
theorem admittedAt?_eq_none (places : List Place)
    (h : (r.mendFrom own path scope places).2 = 0) :
    ∀ p ∈ places, r.admittedAt? scope p = none := by
  induction places with
  | nil => simp
  | cons p rest ih =>
    rw [mendFrom] at h
    split at h
    · next hp => exact List.forall_mem_cons.2 ⟨hp, ih h⟩
    · simp at h

/-- A rule whose pattern matches nowhere does nothing. -/
theorem apply_of_not_isMatch {r : Rule} {text : Text} (h : r.pattern.isMatch text = false)
    (ctx : Context) : r.apply text ctx = ⟨text, 0, false⟩ := by
  rw [apply, h, Bool.and_false]
  rfl

/-- An admitted site is an admitted match at one of the places. -/
theorem admittedAt?_of_mem_sitesFrom {reported : Nat} {places : List Place} {site : MatchSite}
    (h : site ∈ r.sitesFrom scope reported places) (ha : site.placement = .admitted) :
    ∃ p ∈ places, r.admittedAt? scope p ≠ none := by
  fun_induction sitesFrom r scope reported places with
  | case1 => simp at h
  | case2 reported p rest hm ih =>
    obtain ⟨q, hq, hs⟩ := ih h
    exact ⟨q, List.mem_cons_of_mem p hq, hs⟩
  | case3 reported p rest m hm place site' reported' hadm ih =>
    exact ⟨p, List.mem_cons_self, by simp [admittedAt?, hm, show r.placement scope m = _ from hadm]⟩
  | case4 reported p rest m hm place site' reported' hadm hle ih =>
    rcases List.mem_cons.1 h with rfl | h
    · exact absurd ha hadm
    · obtain ⟨q, hq, hs⟩ := ih h
      exact ⟨q, List.mem_cons_of_mem p hq, hs⟩
  | case5 reported p rest m hm place hadm hle ih =>
    obtain ⟨q, hq, hs⟩ := ih h
    exact ⟨q, List.mem_cons_of_mem p hq, hs⟩

/-- Where a rule that fixes does not fire, it has no admitted site. -/
theorem not_admitted_of_fired_eq_zero {r : Rule} {text : Text} {ctx : Context}
    (hfix : r.isFix = true) (h : (r.apply text ctx).fired = 0) {site : MatchSite}
    (hs : site ∈ r.matchSites text (ScopeMap.scan text ctx.dialect)) :
    site.placement ≠ .admitted := by
  obtain ⟨own, hown⟩ := Option.isSome_iff_exists.1 hfix
  simp only [apply_eq_applyIn, applyIn, hown] at h
  intro ha
  obtain ⟨p, hp, hne⟩ := r.admittedAt?_of_mem_sitesFrom _ hs ha
  exact hne (r.admittedAt?_eq_none own ctx.path _ _ h p hp)

end Rule
end SourceMend
