import SourceMend.Proofs.Rule.Rewriting

/-!
Sites and replacements. Applying a rule and listing its match sites are two loops over the same
places with bookkeeping of their own. The matches that the first one replaces are the admitted sites
of the second, one by one. A site that is left out because it overlaps a reported one starts inside
that one, so every match starts inside some site.
-/
namespace SourceMend

/-- A text that takes the place of the bytes from `start` up to `stop`. -/
structure Replacement where
  start : Nat
  stop : Nat
  new : Text
  deriving DecidableEq, Repr, Inhabited

/-- Puts in replacements from left to right; the text starts at byte `pos`. -/
def Text.splice (pos : Nat) (text : Text) : List Replacement → Text
  | [] => text
  | e :: rest =>
    text.takeBytes (e.start - pos) ++ e.new ++ splice e.stop (text.dropBytes (e.stop - pos)) rest

/-- A character before the first replacement stays. -/
theorem Text.splice_cons {pos : Nat} {c : Char} {text : Text} {edits : List Replacement}
    (h : ∀ e ∈ edits, pos + c.utf8Size ≤ e.start ∧ e.start ≤ e.stop) :
    splice pos (c :: text) edits = c :: splice (pos + c.utf8Size) text edits := by
  cases edits with
  | nil => rfl
  | cons e edits =>
    obtain ⟨hstart, hstop⟩ := h e List.mem_cons_self
    have hc := Char.utf8Size_pos c
    rw [splice, splice, takeBytes, dropBytes, if_neg (by omega), if_neg (by omega),
      Nat.sub_sub, Nat.sub_sub]
    rfl

open Pattern (Cursor Match Place)

theorem Pattern.matchAt_eq (p : Pattern) (k : Cursor) : p.matchAt k = p.node.program.find? k := by
  rw [matchAt, survey, Program.survey_eq]
  by_cases h : k.rest = []
  · rw [Cursor.places_nil h]
    rfl
  · rw [Cursor.places_cons h]
    rfl

namespace Rule

/-- The matches that are replaced from the first of the places on. -/
def rewritesFrom (r : Rule) (scope : ScopeMap) (places : List Place) : List Match :=
  match places with
  | [] => []
  | p :: rest =>
    match r.admittedAt? scope p with
    | none => r.rewritesFrom scope rest
    | some m => m :: r.rewritesFrom scope (placesFrom m.stop.pos rest)
termination_by places.length
decreasing_by
  · simp
  · have := length_placesFrom_le m.stop.pos rest
    simp
    omega

variable (r : Rule) (scope : ScopeMap)

/-- The matches that the rule replaces in a text, from left to right. -/
def rewrites (text : Text) : List Match := r.rewritesFrom scope (r.places text)

/-- The site of a match. -/
def siteOf (m : Match) : MatchSite := ⟨m.start.pos, m.stop.pos, r.placement scope m⟩

def replacementAt (own path : String) (m : Match) : Replacement :=
  ⟨m.start.pos, m.stop.pos, r.replacementFor own path m⟩

/-- What the rule puts into a text. -/
def replacements (own path : String) (text : Text) : List Replacement :=
  (r.rewrites scope text).map (r.replacementAt own path)

theorem snd_mendFrom (own path : String) (places : List Place) :
    (r.mendFrom own path scope places).2 = (r.rewritesFrom scope places).length := by
  fun_induction mendFrom r own path scope places with
  | case1 => rw [rewritesFrom]; rfl
  | case2 p rest hp out n heq ih => rw [rewritesFrom, hp, ← ih, heq]
  | case3 p rest m hp out n heq ih => rw [rewritesFrom, hp, List.length_cons, ← ih, heq]

theorem admittedAt?_eq_some_iff {p : Place} {m : Match} :
    r.admittedAt? scope p = some m ↔ matchAt? p = some m ∧ r.placement scope m = .admitted := by
  simp [admittedAt?, Option.filter_eq_some_iff]

theorem admittedAt?_eq_none_of {p : Place} (h : ∀ m, matchAt? p = some m →
    r.placement scope m ≠ .admitted) : r.admittedAt? scope p = none := by
  refine Option.eq_none_iff_forall_ne_some.2 fun m hm => ?_
  obtain ⟨hp, ha⟩ := (r.admittedAt?_eq_some_iff scope).1 hm
  exact h m hp ha

/-- Whatever was reported before, the admitted sites are the matches that are replaced. -/
theorem filter_sitesFrom (reported : Nat) (places : List Place) :
    (r.sitesFrom scope reported places).filter (·.placement = .admitted) =
      (r.rewritesFrom scope places).map (r.siteOf scope) := by
  fun_induction sitesFrom r scope reported places with
  | case1 => rw [rewritesFrom]; rfl
  | case2 reported p rest hp ih =>
    have hnone : r.admittedAt? scope p = none :=
      r.admittedAt?_eq_none_of scope fun m hm => by simp [hp] at hm
    rw [rewritesFrom, hnone, ih]
  | case3 reported p rest m hp place site reported' hadm ih =>
    have hsome : r.admittedAt? scope p = some m := (r.admittedAt?_eq_some_iff scope).2 ⟨hp, hadm⟩
    rw [rewritesFrom, hsome, List.filter_cons_of_pos (by simpa using hadm), ih]
    rfl
  | case4 reported p rest m hp place site reported' hadm hle ih =>
    have hnone : r.admittedAt? scope p = none :=
      r.admittedAt?_eq_none_of scope fun m' hm => by
        obtain rfl : m = m' := Option.some.inj (hp.symm.trans hm)
        exact hadm
    rw [rewritesFrom, hnone, List.filter_cons_of_neg (by simpa using hadm), ih]
  | case5 reported p rest m hp place hadm hle ih =>
    have hnone : r.admittedAt? scope p = none :=
      r.admittedAt?_eq_none_of scope fun m' hm => by
        obtain rfl : m = m' := Option.some.inj (hp.symm.trans hm)
        exact hadm
    rw [rewritesFrom, hnone, ih]

theorem mem_rewritesFrom {places : List Place} {m : Match} (h : m ∈ r.rewritesFrom scope places) :
    ∃ p ∈ places, r.admittedAt? scope p = some m := by
  fun_induction rewritesFrom r scope places with
  | case1 => simp at h
  | case2 p rest hp ih =>
    obtain ⟨q, hq, hm⟩ := ih h
    exact ⟨q, List.mem_cons_of_mem p hq, hm⟩
  | case3 p rest m' hp ih =>
    rcases List.mem_cons.1 h with rfl | h
    · exact ⟨p, List.mem_cons_self, hp⟩
    · obtain ⟨q, hq, hm⟩ := ih h
      exact ⟨q, List.mem_cons_of_mem p ((List.dropWhile_sublist _).subset hq), hm⟩

end Rule

/-- Places from left to right, each with a match that starts there. -/
structure Surveyed (places : List Place) : Prop where
  sorted : places.Pairwise fun p q => p.cursor.pos ≤ q.cursor.pos
  start_eq : ∀ p ∈ places, ∀ m, p.found = some m → m.start = p.cursor
  start_le : ∀ p ∈ places, ∀ m, p.found = some m → m.start.pos ≤ m.stop.pos

namespace Surveyed

theorem of_sublist {places more : List Place} (h : Surveyed more) (hs : places.Sublist more) :
    Surveyed places where
  sorted := h.sorted.sublist hs
  start_eq := fun p hp => h.start_eq p (hs.subset hp)
  start_le := fun p hp => h.start_le p (hs.subset hp)

theorem placesFrom {places : List Place} (h : Surveyed places) (pos : Nat) :
    Surveyed (Rule.placesFrom pos places) := h.of_sublist (List.dropWhile_sublist _)

/-- A place before `pos` is left out by `placesFrom`, and no other one is. -/
theorem mem_placesFrom_iff {places : List Place} (h : Surveyed places) {pos : Nat} {p : Place} :
    p ∈ Rule.placesFrom pos places ↔ p ∈ places ∧ pos ≤ p.cursor.pos := by
  induction places with
  | nil => simp [Rule.placesFrom]
  | cons q rest ih =>
    obtain ⟨hq, -⟩ := List.pairwise_cons.1 h.sorted
    by_cases hlt : q.cursor.pos < pos
    · rw [Rule.placesFrom, List.dropWhile_cons_of_pos (by simpa using hlt)]
      refine (ih (h.of_sublist (List.sublist_cons_self q rest))).trans ?_
      constructor
      · rintro ⟨hp, hle⟩
        exact ⟨List.mem_cons_of_mem q hp, hle⟩
      · rintro ⟨hp, hle⟩
        rcases List.mem_cons.1 hp with rfl | hp
        · omega
        · exact ⟨hp, hle⟩
    · rw [Rule.placesFrom, List.dropWhile_cons_of_neg (by simpa using hlt)]
      refine ⟨fun hp => ⟨hp, ?_⟩, And.left⟩
      rcases List.mem_cons.1 hp with rfl | hp
      · omega
      · have := hq p hp
        omega

/-- A match that is not empty, seen from its place. -/
theorem of_matchAt? {places : List Place} (h : Surveyed places) {p : Place} (hp : p ∈ places)
    {m : Match} (hm : Rule.matchAt? p = some m) :
    m.start = p.cursor ∧ m.start.pos < m.stop.pos := by
  obtain ⟨hf, hne⟩ := Option.filter_eq_some_iff.1 hm
  have hle := h.start_le p hp m hf
  refine ⟨h.start_eq p hp m hf, ?_⟩
  simp only [Match.isEmpty, Bool.not_eq_true', decide_eq_false_iff_not] at hne
  omega

end Surveyed

namespace Rule

variable (r : Rule) (scope : ScopeMap)

theorem le_pos_of_mem_placesBehind {before rest : Text} {p : Place}
    (h : p ∈ r.placesBehind before rest) : Text.size before ≤ p.cursor.pos := by
  induction rest generalizing before with
  | nil =>
    obtain rfl : p = _ := List.mem_singleton.1 h
    exact Nat.le_refl _
  | cons c rest ih =>
    rw [placesBehind_cons] at h
    rcases List.mem_cons.1 h with rfl | h
    · exact Nat.le_refl _
    · have := ih h
      rw [Text.size_append] at this
      omega

/-- The places behind a text follow one another. -/
theorem pairwise_placesBehind (before rest : Text) :
    (r.placesBehind before rest).Pairwise fun p q => p.cursor.pos < q.cursor.pos := by
  induction rest generalizing before with
  | nil => exact List.pairwise_singleton _ _
  | cons c rest ih =>
    rw [placesBehind_cons]
    refine List.pairwise_cons.2 ⟨?_, ih (before ++ [c])⟩
    intro q hq
    have hle := r.le_pos_of_mem_placesBehind hq
    have hc := Char.utf8Size_pos c
    rw [Text.size_append, Text.size_cons, Text.size_nil] at hle
    exact Nat.lt_of_lt_of_le (by omega : Text.size before < _) hle

theorem surveyed_placesBehind (before rest : Text) : Surveyed (r.placesBehind before rest) := by
  have hfound (p : Place) (hp : p ∈ r.placesBehind before rest) :
      p.found = r.pattern.node.program.find? p.cursor := by
    obtain ⟨l, -, rfl⟩ := List.mem_map.1 hp
    rfl
  constructor
  · exact (r.pairwise_placesBehind before rest).imp Nat.le_of_lt
  · intro p hp m hm
    exact (Pattern.find?_way (hfound p hp ▸ hm)).1
  · intro p hp m hm
    obtain ⟨hs, hw⟩ := Pattern.find?_way (hfound p hp ▸ hm)
    obtain ⟨old, hr⟩ := hw.reads
    rw [hs, hr.pos]
    exact Nat.le_add_right _ _

theorem surveyed_places (text : Text) : Surveyed (r.places text) :=
  r.places_eq text ▸ r.surveyed_placesBehind [] text

/-- The matches that are replaced lie side by side. -/
theorem pairwise_rewritesFrom {places : List Place} (h : Surveyed places) :
    (r.rewritesFrom scope places).Pairwise fun a b => a.stop.pos ≤ b.start.pos := by
  fun_induction rewritesFrom r scope places with
  | case1 => exact .nil
  | case2 p rest hp ih => exact ih (h.of_sublist (List.sublist_cons_self p rest))
  | case3 p rest m hp ih =>
    have hrest := h.of_sublist (List.sublist_cons_self p rest)
    refine List.pairwise_cons.2 ⟨fun m' hm' => ?_, ih (hrest.placesFrom _)⟩
    obtain ⟨q, hq, hadm⟩ := r.mem_rewritesFrom scope hm'
    obtain ⟨hmem, hle⟩ := hrest.mem_placesFrom_iff.1 hq
    rw [(hrest.of_matchAt? hmem ((r.admittedAt?_eq_some_iff scope).1 hadm).1).1]
    exact hle

/-- What `mendFrom` gives is the text with its replacements put in. -/
theorem fst_mendFrom (own path : String) (before rest : Text) :
    (r.mendFrom own path scope (r.placesBehind before rest)).1 =
      Text.splice (Text.size before) rest
        ((r.rewritesFrom scope (r.placesBehind before rest)).map (r.replacementAt own path)) := by
  cases rest with
  | nil =>
    rw [r.mendFrom_end, placesBehind_nil, rewritesFrom, r.admittedAt?_end, rewritesFrom]
    rfl
  | cons c rest =>
    rw [placesBehind_cons, mendFrom, rewritesFrom]
    cases hm : r.admittedAt? scope ⟨.between before (c :: rest),
        r.pattern.node.program.find? (.between before (c :: rest))⟩ with
    | none =>
      have hlate : ∀ e ∈ (r.rewritesFrom scope (r.placesBehind (before ++ [c]) rest)).map
          (r.replacementAt own path),
          Text.size before + c.utf8Size ≤ e.start ∧ e.start ≤ e.stop := by
        intro e he
        obtain ⟨m, hmem, rfl⟩ := List.mem_map.1 he
        obtain ⟨p, hp, hadm⟩ := r.mem_rewritesFrom scope hmem
        obtain ⟨hs, hlt⟩ := (r.surveyed_placesBehind _ _).of_matchAt? hp
          ((r.admittedAt?_eq_some_iff scope).1 hadm).1
        have hpos := r.le_pos_of_mem_placesBehind hp
        rw [Text.size_append, ← hs] at hpos
        exact ⟨hpos, Nat.le_of_lt hlt⟩
      have ih := fst_mendFrom own path (before ++ [c]) rest
      rw [Text.size_append] at ih
      rw [Text.splice_cons hlate]
      exact congrArg (c :: ·) ih
    | some m =>
      obtain ⟨old, after, ho, hpos, m', hm', -, hne, -⟩ :=
        r.replaces_of_admittedAt? own path scope hm
      have hlt := Text.length_lt_of_eq_append ho hne
      obtain ⟨hs, -⟩ := r.extent_of_matchAt? ((r.admittedAt?_eq_some_iff scope).1 hm).1
      have ih := fst_mendFrom own path (before ++ old) after
      have hsize : m.stop.pos - Text.size before = Text.size old := by
        rw [hpos, Text.size_append, Nat.add_sub_cancel_left]
      simp only [List.map_cons, Text.splice, replacementAt, hs, Nat.sub_self, hsize]
      rw [hpos, r.placesFrom_stop ho hne, ho, Text.dropBytes_size_append, ih]
      cases old with
      | nil => contradiction
      | cons d old => simp [Text.takeBytes]
termination_by rest.length
decreasing_by
  · exact Nat.lt_succ_self rest.length
  · exact hlt

theorem apply_eq_splice {r : Rule} {own : String} (h : r.replacement = some own) (text : Text)
    (ctx : Context) :
    (r.apply text ctx).text = Text.splice 0 text
      (r.replacements (ScopeMap.scan text ctx.dialect) own ctx.path text) := by
  simp only [apply_eq_applyIn, applyIn, h, replacements, rewrites, places_eq]
  exact r.fst_mendFrom _ own ctx.path [] text

theorem fired_eq_length {r : Rule} (h : r.isFix = true) (text : Text) (ctx : Context) :
    (r.apply text ctx).fired = (r.rewrites (ScopeMap.scan text ctx.dialect) text).length := by
  obtain ⟨own, hown⟩ := Option.isSome_iff_exists.1 h
  simp only [apply_eq_applyIn, applyIn, hown, rewrites]
  exact r.snd_mendFrom _ own ctx.path _

/-- The admitted sites of a text are the ranges of the replacements. -/
theorem admitted_matchSites (own path : String) (text : Text) :
    (r.matchSites text scope).filter (·.placement = .admitted) =
      (r.replacements scope own path text).map fun e => ⟨e.start, e.stop, .admitted⟩ := by
  rw [matchSites, filter_sitesFrom, replacements, rewrites, List.map_map]
  refine List.map_congr_left fun m hm => ?_
  obtain ⟨p, -, hadm⟩ := r.mem_rewritesFrom scope hm
  simp [siteOf, replacementAt, ((r.admittedAt?_eq_some_iff scope).1 hadm).2]

/-- No replacement is of an empty range, and they lie side by side. -/
theorem replacements_sideBySide (own path : String) (text : Text) :
    (∀ e ∈ r.replacements scope own path text, e.start < e.stop) ∧
      (r.replacements scope own path text).Pairwise fun a b => a.stop ≤ b.start := by
  have hsurvey := r.surveyed_places text
  constructor
  · intro e he
    obtain ⟨m, hm, rfl⟩ := List.mem_map.1 he
    obtain ⟨p, hp, hadm⟩ := r.mem_rewritesFrom scope hm
    exact (hsurvey.of_matchAt? hp ((r.admittedAt?_eq_some_iff scope).1 hadm).1).2
  · exact (r.pairwise_rewritesFrom scope hsurvey).map _ fun a b h => h

/-- A match starts inside a reported site, or before the mark up to which sites are reported. Only
a match that is not admitted is hidden by a site that touches a literal. -/
theorem site_of_match (reported : Nat) {places : List Place} (h : Surveyed places) {p : Place}
    (hp : p ∈ places) {m : Match} (hm : matchAt? p = some m) :
    (∃ site ∈ r.sitesFrom scope reported places, site.start ≤ m.start.pos ∧
        m.start.pos < site.stop ∧
        (site.placement = .literal → r.placement scope m ≠ .admitted)) ∨
      m.start.pos < reported ∧ r.placement scope m ≠ .admitted := by
  obtain ⟨hstart, hlt⟩ := h.of_matchAt? hp hm
  fun_induction sitesFrom r scope reported places with
  | case1 => simp at hp
  | case2 reported q rest hq ih =>
    rcases List.mem_cons.1 hp with rfl | hp
    · simp [hq] at hm
    · exact ih (h.of_sublist (List.sublist_cons_self q rest)) hp
  | case3 reported q rest m₀ hq place site reported' hadm ih =>
    have hnot : site.placement ≠ .literal := fun hl => by simp [site, hadm] at hl
    rcases List.mem_cons.1 hp with rfl | hp
    · obtain rfl : m₀ = m := Option.some.inj (hq.symm.trans hm)
      exact .inl ⟨site, List.mem_cons_self, Nat.le_refl _, hlt, fun hl => absurd hl hnot⟩
    have hrest := h.of_sublist (List.sublist_cons_self q rest)
    have hle : m₀.start.pos ≤ m.start.pos := by
      rw [(h.of_matchAt? List.mem_cons_self hq).1, hstart]
      exact (List.pairwise_cons.1 h.sorted).1 p hp
    -- A place that the search leaps over lies inside the admitted site.
    by_cases hin : m.start.pos < m₀.stop.pos
    · exact .inl ⟨site, List.mem_cons_self, hle, hin, fun hl => absurd hl hnot⟩
    have hfrom : p ∈ placesFrom m₀.stop.pos rest :=
      hrest.mem_placesFrom_iff.2 ⟨hp, by rw [← hstart]; omega⟩
    rcases ih (hrest.placesFrom _) hfrom with ⟨site', hmem, hcov⟩ | ⟨hbefore, hrej⟩
    · exact .inl ⟨site', List.mem_cons_of_mem _ hmem, hcov⟩
    · exact .inr ⟨by omega, hrej⟩
  | case4 reported q rest m₀ hq place site reported' hadm hle ih =>
    rcases List.mem_cons.1 hp with rfl | hp
    · obtain rfl : m₀ = m := Option.some.inj (hq.symm.trans hm)
      exact .inl ⟨site, List.mem_cons_self, Nat.le_refl _, hlt, fun _ => hadm⟩
    have hrest := h.of_sublist (List.sublist_cons_self q rest)
    have hstarts : m₀.start.pos ≤ m.start.pos := by
      rw [(h.of_matchAt? List.mem_cons_self hq).1, hstart]
      exact (List.pairwise_cons.1 h.sorted).1 p hp
    rcases ih hrest hp with ⟨site', hmem, hcov⟩ | ⟨hbefore, hrej⟩
    · exact .inl ⟨site', List.mem_cons_of_mem _ hmem, hcov⟩
    · have hin : m.start.pos < m₀.stop.pos := by omega
      exact .inl ⟨site, List.mem_cons_self, hstarts, hin, fun _ => hrej⟩
  | case5 reported q rest m₀ hq place hadm hle ih =>
    rcases List.mem_cons.1 hp with rfl | hp
    · obtain rfl : m₀ = m := Option.some.inj (hq.symm.trans hm)
      exact .inr ⟨by omega, hadm⟩
    · exact ih (h.of_sublist (List.sublist_cons_self q rest)) hp

/-- The place between two parts of a text is one of its places. -/
theorem mem_places (before after : Text) :
    ⟨.between before after, r.pattern.matchAt (.between before after)⟩ ∈
      r.places (before ++ after) := by
  suffices h : ∀ front : Text,
      ⟨.between (front ++ before) after,
        r.pattern.node.program.find? (.between (front ++ before) after)⟩ ∈
      r.placesBehind front (before ++ after) by
    rw [places_eq, Pattern.matchAt_eq]
    exact h []
  induction before with
  | nil =>
    intro front
    rw [List.append_nil]
    cases after with
    | nil => exact List.mem_cons_self
    | cons c after =>
      rw [List.nil_append, placesBehind_cons]
      exact List.mem_cons_self
  | cons c before ih =>
    intro front
    rw [List.cons_append, placesBehind_cons]
    have := ih (front ++ [c])
    rw [List.append_assoc, List.singleton_append] at this
    exact List.mem_cons_of_mem _ this

/-- Every place of a text lies between two parts of it. -/
theorem exists_between_of_mem_places {text : Text} {p : Place} (h : p ∈ r.places text) :
    ∃ before after, text = before ++ after ∧
      p = ⟨.between before after, r.pattern.matchAt (.between before after)⟩ := by
  suffices hbehind : ∀ (front rest : Text), p ∈ r.placesBehind front rest →
      ∃ before after, rest = before ++ after ∧ p = ⟨.between (front ++ before) after,
        r.pattern.node.program.find? (.between (front ++ before) after)⟩ by
    simp only [Pattern.matchAt_eq]
    exact hbehind [] text (r.places_eq text ▸ h)
  intro front rest hp
  induction rest generalizing front with
  | nil =>
    obtain rfl : p = _ := List.mem_singleton.1 hp
    refine ⟨[], [], rfl, ?_⟩
    rw [List.append_nil]
    rfl
  | cons c rest ih =>
    rw [placesBehind_cons] at hp
    rcases List.mem_cons.1 hp with rfl | hp
    · exact ⟨[], c :: rest, rfl, by rw [List.append_nil]⟩
    · obtain ⟨before, after, rfl, rfl⟩ := ih (front ++ [c]) hp
      exact ⟨c :: before, after, rfl, by rw [List.append_assoc, List.singleton_append]⟩

/-- A match that is not empty parts the text in three. -/
theorem exists_parts_of_mem_places {text : Text} {p : Place} (hp : p ∈ r.places text) {m : Match}
    (hm : matchAt? p = some m) : ∃ before old after, text = before ++ old ++ after ∧ old ≠ [] ∧
      m.start.pos = Text.size before ∧ m.stop.pos = Text.size (before ++ old) := by
  obtain ⟨before, rest, rfl, rfl⟩ := r.exists_between_of_mem_places hp
  rw [Pattern.matchAt_eq] at hm
  obtain ⟨-, hstart, old, after, hne, rfl, hstop⟩ := r.reads_of_matchAt? hm
  exact ⟨before, old, after, (List.append_assoc ..).symm, hne, by rw [hstart]; rfl,
    by rw [hstop]; rfl⟩

/-- The sites that hold the byte `pos`. -/
def sitesAround (text : Text) (pos : Nat) : List MatchSite :=
  (r.matchSites text scope).filter fun site => site.start ≤ pos && pos < site.stop

/-- Every match that is not empty starts inside a site. -/
theorem exists_site_around {before after : Text} {m : Match}
    (hm : r.pattern.matchAt (.between before after) = some m) (hne : m.isEmpty = false) :
    m.start.pos < m.stop.pos ∧ ∃ site ∈ r.sitesAround scope (before ++ after) (Text.size before),
      site.placement = .literal → r.placement scope m ≠ .admitted := by
  have hsurvey := r.surveyed_places (before ++ after)
  have hplace := r.mem_places before after
  have hmatch : matchAt? ⟨.between before after, r.pattern.matchAt (.between before after)⟩ =
      some m := by
    simp [matchAt?, hm, hne]
  obtain ⟨hstart, hlt⟩ := hsurvey.of_matchAt? hplace hmatch
  have hpos : m.start.pos = Text.size before := by rw [hstart]; rfl
  refine ⟨hlt, ?_⟩
  rcases r.site_of_match scope 0 hsurvey hplace hmatch with ⟨site, hmem, hle, hin, hlit⟩ | ⟨hneg, -⟩
  · rw [hpos] at hle hin
    exact ⟨site, List.mem_filter.2 ⟨hmem, by simp [hle, hin]⟩, hlit⟩
  · exact absurd hneg (Nat.not_lt_zero _)

end Rule
end SourceMend
