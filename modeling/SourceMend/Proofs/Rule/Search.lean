import SourceMend.Proofs.Rule.Sites

/-!
The search for matches. A rule looks for the first match from some byte of the text on, deals with
it, and says from which byte to look for the next one. Each match moves the search on by a character
at least, so it ends. It gives what the walk over all places of the text gives, for the rewriting of
a text as well as for the list of its sites.
-/
namespace SourceMend

open Pattern (Cursor Match)

/-- The first match that starts at byte `pos` or behind it, in the sight of the whole text. -/
def Pattern.capturesAt? (p : Pattern) (text : Text) (pos : Nat) : Option Match :=
  (Rule.placesFrom pos (p.survey (.start text))).findSome? (·.found)

namespace Rule

/-- The byte behind the character at byte `pos`. Where there is none, it lies behind the text. -/
def nextChar (text : Text) (pos : Nat) : Nat :=
  match (Text.dropBytes pos text).head? with
  | some c => pos + c.utf8Size
  | none => Text.size text + 1

/-- The search for matches from byte `pos` on ends in `final`. A match that is empty is passed over;
`visit` deals with any other one and says where to go on. -/
inductive Searches {σ : Type} (p : Pattern) (text : Text) (visit : σ → Match → σ × Nat) :
    σ → Nat → σ → Prop
  | past {st : σ} {pos : Nat} (behind : Text.size text < pos) : Searches p text visit st pos st
  | none {st : σ} {pos : Nat} (within : pos ≤ Text.size text)
    (miss : p.capturesAt? text pos = none) : Searches p text visit st pos st
  | pass {st final : σ} {pos : Nat} {m : Match} (within : pos ≤ Text.size text)
    (hit : p.capturesAt? text pos = some m) (empty : m.isEmpty = true)
    (later : Searches p text visit st (nextChar text m.stop.pos) final) :
    Searches p text visit st pos final
  | visit {st final : σ} {pos : Nat} {m : Match} (within : pos ≤ Text.size text)
    (hit : p.capturesAt? text pos = some m) (nonempty : m.isEmpty = false)
    (later : Searches p text visit (visit st m).1 (visit st m).2 final) :
    Searches p text visit st pos final

namespace Searches

variable {σ : Type} {p : Pattern} {text : Text} {visit : σ → Match → σ × Nat} {st : σ} {pos : Nat}

/-- A search has one end. -/
theorem unique {a b : σ} (ha : Searches p text visit st pos a)
    (hb : Searches p text visit st pos b) : a = b := by
  induction ha with
  | past hbehind => cases hb <;> first | rfl | omega
  | none hwithin hmiss =>
    cases hb with
    | past | none => rfl
    | pass _ hhit | visit _ hhit => exact nomatch hmiss.symm.trans hhit
  | pass hwithin hhit hempty _ ih =>
    cases hb with
    | past => omega
    | none _ hmiss => exact nomatch hmiss.symm.trans hhit
    | pass _ hhit' _ hlater =>
      obtain rfl := Option.some.inj (hhit.symm.trans hhit')
      exact ih hlater
    | visit _ hhit' hnonempty =>
      obtain rfl := Option.some.inj (hhit.symm.trans hhit')
      exact nomatch hempty.symm.trans hnonempty
  | visit hwithin hhit hnonempty _ ih =>
    cases hb with
    | past => omega
    | none _ hmiss => exact nomatch hmiss.symm.trans hhit
    | pass _ hhit' hempty =>
      obtain rfl := Option.some.inj (hhit.symm.trans hhit')
      exact nomatch hempty.symm.trans hnonempty
    | visit _ hhit' _ hlater =>
      obtain rfl := Option.some.inj (hhit.symm.trans hhit')
      exact ih hlater

/-- From where the same match comes next, the search goes the same way. -/
theorem of_capturesAt? {pos' : Nat} {final : σ} (h : Searches p text visit st pos' final)
    (hsame : p.capturesAt? text pos = p.capturesAt? text pos') (hpos : pos ≤ Text.size text)
    (hpos' : pos' ≤ Text.size text) : Searches p text visit st pos final := by
  cases h with
  | past => omega
  | none _ hmiss => exact .none hpos (hsame.trans hmiss)
  | pass _ hhit hempty hlater => exact .pass hpos (hsame.trans hhit) hempty hlater
  | visit _ hhit hnonempty hlater => exact .visit hpos (hsame.trans hhit) hnonempty hlater

end Searches

/-- A text on its way: the text so far, the byte up to which the old one is in it, and how many
matches were replaced. -/
structure Mending where
  out : Text := []
  copied : Nat := 0
  fired : Nat := 0

/-- The matches found, and the byte up to which they reach. -/
structure Listing where
  sites : List MatchSite := []
  reported : Nat := 0

variable (r : Rule) (scope : ScopeMap)

/-- Replaces a match that is admitted, and goes on behind it; one that is not is passed by a
character. -/
def mendAt (own path : String) (text : Text) (st : Mending) (m : Match) : Mending × Nat :=
  if r.placement scope m ≠ .admitted then (st, nextChar text m.start.pos)
  else
    let kept := Text.takeBytes (m.start.pos - st.copied) (Text.dropBytes st.copied text)
    ({ out := st.out ++ kept ++ r.replacementFor own path m
       copied := m.stop.pos
       fired := st.fired + 1 }, m.stop.pos)

/-- Lists a match, unless it is rejected and overlaps one that is listed. -/
def listAt (text : Text) (st : Listing) (m : Match) : Listing × Nat :=
  let place := r.placement scope m
  let st' : Listing :=
    if place = .admitted ∨ st.reported ≤ m.start.pos then
      { sites := st.sites ++ [⟨m.start.pos, m.stop.pos, place⟩]
        reported := max st.reported m.stop.pos }
    else st
  (st', if place = .admitted then m.stop.pos else nextChar text m.start.pos)

/-- The text with what is left of the old one. -/
def Mending.finish (text : Text) (st : Mending) : Mended :=
  if st.fired = 0 then ⟨text, 0, false⟩
  else
    let out := st.out ++ Text.dropBytes st.copied text
    ⟨out, st.fired, out != text⟩

/-! From place to place -/

theorem nextChar_between (before : Text) (c : Char) (rest : Text) :
    nextChar (before ++ c :: rest) (Text.size before) = Text.size (before ++ [c]) := by
  rw [nextChar, Text.dropBytes_size_append, List.head?_cons, Text.size_append before [c]]
  rfl

theorem nextChar_end (text : Text) : nextChar text (Text.size text) = Text.size text + 1 := by
  have hend := Text.dropBytes_size_append text []
  rw [List.append_nil] at hend
  rw [nextChar, hend]
  rfl

theorem capturesAt?_between (before rest : Text) :
    r.pattern.capturesAt? (before ++ rest) (Text.size before) =
      (r.placesBehind before rest).findSome? (·.found) := by
  have hplaces := r.placesFrom_placesBehind [] before rest
  rw [List.nil_append, ← places_eq] at hplaces
  exact congrArg (List.findSome? (·.found)) hplaces

section Search

variable {σ : Type} (visit : σ → Match → σ × Nat) (st : σ)

/-- An empty match ends where it starts. -/
theorem stop_of_isEmpty {before rest : Text} {m : Match}
    (hm : r.pattern.node.program.find? (.between before rest) = some m) (h : m.isEmpty = true) :
    m.stop.pos = Text.size before := by
  rw [← of_decide_eq_true h, (Pattern.find?_way hm).1]
  rfl

/-- The search goes on from the end of the text to behind it. -/
theorem searches_end (text : Text) :
    Searches r.pattern text visit st (Text.size text) st := by
  have hcaptures := r.capturesAt?_between text []
  rw [List.append_nil, placesBehind_nil, List.findSome?_cons] at hcaptures
  cases hm : r.pattern.node.program.find? (.between text []) with
  | none =>
    rw [hm] at hcaptures
    exact .none (Nat.le_refl _) hcaptures
  | some m =>
    have hempty : m.isEmpty = true := by
      have hnone := r.matchAt?_end text
      simpa [matchAt?, hm] using hnone
    rw [hm] at hcaptures
    refine .pass (Nat.le_refl _) hcaptures hempty (.past ?_)
    rw [r.stop_of_isEmpty hm hempty, nextChar_end]
    omega

/-- A place where there is nothing to visit is passed by. -/
theorem searches_cons {text before rest : Text} {c : Char} {final : σ}
    (htext : text = before ++ c :: rest)
    (h : match matchAt? ⟨.between before (c :: rest),
        r.pattern.node.program.find? (.between before (c :: rest))⟩ with
      | none => Searches r.pattern text visit st (Text.size (before ++ [c])) final
      | some m => Searches r.pattern text visit (visit st m).1 (visit st m).2 final) :
    Searches r.pattern text visit st (Text.size before) final := by
  have hsize : Text.size text = Text.size (before ++ [c]) + Text.size rest := by
    rw [htext, List.append_cons, Text.size_append]
  have hpos : Text.size before < Text.size (before ++ [c]) := by
    have := Char.utf8Size_pos c
    simpa using this
  have hcaptures := r.capturesAt?_between before (c :: rest)
  rw [← htext, placesBehind_cons, List.findSome?_cons] at hcaptures
  cases hm : r.pattern.node.program.find? (.between before (c :: rest)) with
  | none =>
    have hlater := r.capturesAt?_between (before ++ [c]) rest
    rw [← List.append_cons, ← htext] at hlater
    rw [hm] at h hcaptures
    exact Searches.of_capturesAt? h (hcaptures.trans hlater.symm) (by omega) (by omega)
  | some m =>
    rw [hm] at hcaptures
    cases hempty : m.isEmpty with
    | true =>
      have hnone : matchAt? ⟨.between before (c :: rest), some m⟩ = none := by
        simp [matchAt?, hempty]
      rw [hm, hnone] at h
      refine .pass (by omega) hcaptures hempty ?_
      rw [r.stop_of_isEmpty hm hempty, htext, nextChar_between, ← htext]
      exact h
    | false =>
      have hsome : matchAt? ⟨.between before (c :: rest), some m⟩ = some m := by
        simp [matchAt?, hempty]
      rw [hm, hsome] at h
      exact .visit (by omega) hcaptures hempty h

end Search

/-! Rewriting -/

section Mend

variable (own path : String) {text before rest : Text} {c : Char} {m : Match}

/-- The character at a place that is passed is kept. -/
theorem mendFrom_keep (h : r.admittedAt? scope ⟨.between before (c :: rest),
    r.pattern.node.program.find? (.between before (c :: rest))⟩ = none) :
    r.mendFrom own path scope (r.placesBehind before (c :: rest)) =
      (c :: (r.mendFrom own path scope (r.placesBehind (before ++ [c]) rest)).1,
        (r.mendFrom own path scope (r.placesBehind (before ++ [c]) rest)).2) := by
  rw [placesBehind_cons, mendFrom, h]
  rfl

/-- The walk goes on behind a match that is replaced. -/
theorem mendFrom_replace {old after : Text} (h : r.admittedAt? scope ⟨.between before (c :: rest),
    r.pattern.node.program.find? (.between before (c :: rest))⟩ = some m)
    (ho : c :: rest = old ++ after) (hne : old ≠ [])
    (hstop : m.stop.pos = Text.size (before ++ old)) :
    r.mendFrom own path scope (r.placesBehind before (c :: rest)) =
      (r.replacementFor own path m ++
        (r.mendFrom own path scope (r.placesBehind (before ++ old) after)).1,
        (r.mendFrom own path scope (r.placesBehind (before ++ old) after)).2 + 1) := by
  rw [placesBehind_cons, mendFrom, h]
  simp only [hstop, r.placesFrom_stop ho hne]

/-- The search makes of the rest of a text what the walk over its places makes of it. -/
theorem searches_mendAt (front mid rest : Text) (htext : text = front ++ mid ++ rest) (out : Text)
    (fired : Nat) : ∃ final, Searches r.pattern text (r.mendAt scope own path text)
        ⟨out, Text.size front, fired⟩ (Text.size (front ++ mid)) final ∧
      final.out ++ Text.dropBytes final.copied text =
        out ++ mid ++ (r.mendFrom own path scope (r.placesBehind (front ++ mid) rest)).1 ∧
      final.fired = fired + (r.mendFrom own path scope (r.placesBehind (front ++ mid) rest)).2 := by
  cases rest with
  | nil =>
    rw [List.append_nil] at htext
    rw [r.mendFrom_end, ← htext]
    refine ⟨_, r.searches_end _ _ text, ?_, rfl⟩
    simp [htext, Text.dropBytes_size_append]
  | cons c rest =>
    obtain ⟨final, hkeep, hout, hfired⟩ :=
      searches_mendAt front (mid ++ [c]) rest (by simp [htext]) out fired
    rw [← List.append_assoc] at hkeep hout hfired
    cases hmatch : matchAt? ⟨.between (front ++ mid) (c :: rest),
        r.pattern.node.program.find? (.between (front ++ mid) (c :: rest))⟩ with
    | none =>
      rw [r.mendFrom_keep scope own path (by simp [admittedAt?, hmatch])]
      refine ⟨final, r.searches_cons _ _ htext (by rw [hmatch]; exact hkeep), ?_, hfired⟩
      rw [hout]
      simp
    | some m =>
      obtain ⟨hstart, old, after, hne, ho, hstop⟩ := r.extent_of_matchAt? hmatch
      by_cases hadmitted : r.placement scope m = .admitted
      · have hsome := (r.admittedAt?_eq_some_iff scope).2 ⟨hmatch, hadmitted⟩
        have hlt := Text.length_lt_of_eq_append ho hne
        obtain ⟨final, hlater, hout, hfired⟩ := searches_mendAt (front ++ mid ++ old) [] after
          (by simp [htext, ho]) (out ++ mid ++ r.replacementFor own path m) (fired + 1)
        have hkept : Text.takeBytes (m.start.pos - Text.size front)
            (Text.dropBytes (Text.size front) text) = mid := by
          rw [hstart, Text.size_append, Nat.add_sub_cancel_left, htext, List.append_assoc,
            Text.dropBytes_size_append, Text.takeBytes_size_append]
        rw [r.mendFrom_replace scope own path hsome ho hne hstop]
        rw [List.append_nil] at hlater hout hfired
        refine ⟨final, r.searches_cons _ _ htext ?_, ?_, ?_⟩
        · rw [hmatch]
          simpa only [mendAt, ne_eq, hadmitted, not_true_eq_false, if_false, hkept, hstop]
            using hlater
        · rw [hout, List.append_nil, List.append_assoc _ (r.replacementFor own path m)]
        · rw [hfired]
          omega
      · have hnone : r.admittedAt? scope ⟨.between (front ++ mid) (c :: rest),
            r.pattern.node.program.find? (.between (front ++ mid) (c :: rest))⟩ = none :=
          r.admittedAt?_eq_none_of scope fun m' hm' => by
            obtain rfl : m = m' := Option.some.inj (hmatch.symm.trans hm')
            exact hadmitted
        have hnext : nextChar text m.start.pos = Text.size (front ++ mid ++ [c]) := by
          rw [hstart, htext, nextChar_between]
        rw [r.mendFrom_keep scope own path hnone]
        refine ⟨final, r.searches_cons _ _ htext ?_, ?_, hfired⟩
        · rw [hmatch]
          simpa only [mendAt, ne_eq, hadmitted, not_false_eq_true, if_true, hnext] using hkeep
        · rw [hout]
          simp
termination_by rest.length

/-- A rule that replaces makes the same of a text by a search, which ends, and by a walk over all
places. -/
theorem applyIn_of_searches (hown : r.replacement = some own) (text : Text) (ctx : Context) :
    (∃ final, Searches r.pattern text (r.mendAt scope own ctx.path text) {} 0 final) ∧
    ∀ final, Searches r.pattern text (r.mendAt scope own ctx.path text) {} 0 final →
      r.applyIn text scope ctx = final.finish text := by
  obtain ⟨st, hsearch, hout, hfired⟩ := r.searches_mendAt scope own ctx.path [] [] text rfl [] 0
  have hwalk := r.mendFrom_rewritten own ctx.path scope [] text
  simp only [List.append_nil, List.nil_append, Text.size_nil, Nat.zero_add] at hsearch hout hfired
  rw [← places_eq] at hout hfired hwalk
  refine ⟨⟨st, hsearch⟩, fun final hfinal => ?_⟩
  obtain rfl := hfinal.unique hsearch
  unfold applyIn
  simp only [hown, Mending.finish, hout, hfired]
  split
  · next hzero => simp [hwalk.eq_of_zero hzero, hzero]
  · rfl

end Mend

/-! Sites -/

/-- The search lists of the rest of a text what the walk over its places lists of it. -/
theorem searches_listAt {text : Text} (before rest : Text) (htext : text = before ++ rest)
    (sites : List MatchSite) (reported : Nat) : ∃ final,
    Searches r.pattern text (r.listAt scope text) ⟨sites, reported⟩ (Text.size before) final ∧
      final.sites = sites ++ r.sitesFrom scope reported (r.placesBehind before rest) := by
  cases rest with
  | nil =>
    rw [List.append_nil] at htext
    rw [placesBehind_nil, sitesFrom, r.matchAt?_end, sitesFrom, List.append_nil, ← htext]
    exact ⟨_, r.searches_end _ _ text, rfl⟩
  | cons c rest =>
    have hsplit : text = before ++ [c] ++ rest := by rw [htext, List.append_cons]
    have hpass := searches_listAt (before ++ [c]) rest hsplit
    rw [placesBehind_cons, sitesFrom]
    cases hmatch : matchAt? ⟨.between before (c :: rest),
        r.pattern.node.program.find? (.between before (c :: rest))⟩ with
    | none =>
      obtain ⟨final, hlater, hsites⟩ := hpass sites reported
      exact ⟨final, r.searches_cons _ _ htext (by rw [hmatch]; exact hlater), hsites⟩
    | some m =>
      obtain ⟨hstart, old, after, hne, ho, hstop⟩ := r.extent_of_matchAt? hmatch
      by_cases hadmitted : r.placement scope m = .admitted
      · have hlt := Text.length_lt_of_eq_append ho hne
        obtain ⟨final, hlater, hsites⟩ := searches_listAt (before ++ old) after
          (htext.trans (by rw [ho, List.append_assoc]))
          (sites ++ [⟨m.start.pos, m.stop.pos, .admitted⟩]) (max reported m.stop.pos)
        rw [hstop] at hlater hsites
        refine ⟨final, r.searches_cons _ _ htext ?_, ?_⟩
        · rw [hmatch]
          simpa only [listAt, hadmitted, true_or, if_true, hstop] using hlater
        · simp only [hadmitted, if_true, hstop, r.placesFrom_stop ho hne]
          rw [hsites, List.append_assoc]
          rfl
      · have hnext : nextChar text m.start.pos = Text.size (before ++ [c]) := by
          rw [hstart, htext, nextChar_between]
        by_cases hle : reported ≤ m.start.pos
        · obtain ⟨final, hlater, hsites⟩ := hpass
            (sites ++ [⟨m.start.pos, m.stop.pos, r.placement scope m⟩]) (max reported m.stop.pos)
          refine ⟨final, r.searches_cons _ _ htext ?_, ?_⟩
          · rw [hmatch]
            simpa only [listAt, hadmitted, hle, false_or, if_true, if_false, hnext] using hlater
          · simp only [hadmitted, hle, if_true, if_false]
            rw [hsites, List.append_assoc]
            rfl
        · obtain ⟨final, hlater, hsites⟩ := hpass sites reported
          refine ⟨final, r.searches_cons _ _ htext ?_, ?_⟩
          · rw [hmatch]
            simpa only [listAt, hadmitted, hle, false_or, if_false, hnext] using hlater
          · simpa only [hadmitted, hle, if_false] using hsites
termination_by rest.length

/-- A rule lists the same sites by a search, which ends, and by a walk over all places. -/
theorem matchSites_of_searches (text : Text) :
    (∃ final, Searches r.pattern text (r.listAt scope text) {} 0 final) ∧
    ∀ final, Searches r.pattern text (r.listAt scope text) {} 0 final →
      r.matchSites text scope = final.sites := by
  obtain ⟨st, hsearch, hsites⟩ := r.searches_listAt scope [] text rfl [] 0
  rw [← places_eq, List.nil_append] at hsites
  refine ⟨⟨st, hsearch⟩, fun final hfinal => ?_⟩
  obtain rfl := hfinal.unique hsearch
  exact hsites.symm

end Rule
end SourceMend
