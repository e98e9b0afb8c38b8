import SourceMend.Proofs.Rule.Filling
import SourceMend.Proofs.Rule.Sites
import SourceMend.Proofs.Scope.Spans

/-!
What a rule leaves alone. A text is cut into gaps and matches, and applying a rule keeps the gaps as
they are and puts something else in the place of each match. Each match is code, in a frame that the
guard asks for, so the literals of the text lie in its gaps.
-/
namespace SourceMend

open Pattern (Match)

/-- A part of a text that stays, the match behind it, and what takes the place of the match. -/
structure Cut where
  gap : Text
  old : Text
  new : Text
  deriving DecidableEq, Repr, Inhabited

namespace Cut

/-- The gaps and the matches. -/
def before (cuts : List Cut) : Text := cuts.flatMap fun c => c.gap ++ c.old

/-- The gaps and what takes the place of the matches. -/
def after (cuts : List Cut) : Text := cuts.flatMap fun c => c.gap ++ c.new

/-- The first gap, where `tail` follows the last match. -/
def nextGap (tail : Text) : List Cut → Text
  | [] => tail
  | c :: _ => c.gap

@[simp] theorem before_nil : before [] = [] := rfl

@[simp] theorem before_cons (c : Cut) (cuts : List Cut) :
    before (c :: cuts) = c.gap ++ c.old ++ before cuts := rfl

@[simp] theorem after_nil : after [] = [] := rfl

@[simp] theorem after_cons (c : Cut) (cuts : List Cut) :
    after (c :: cuts) = c.gap ++ c.new ++ after cuts := rfl

/-- Every cut is an edit between what stands before it and what stands behind it. -/
def Each (Edit : Text → Text → Text → Text → Prop) (front : Text) (cuts : List Cut)
    (tail : Text) : Prop :=
  ∀ cs c ds, cuts = cs ++ c :: ds →
    Edit (front ++ before cs ++ c.gap) c.old c.new (before ds ++ tail)

section Each

variable {Edit Edit' : Text → Text → Text → Text → Prop} {front tail : Text} {c : Cut}
  {cuts : List Cut}

theorem each_nil (front tail : Text) : Each Edit front [] tail := by
  intro cs c ds h
  simp at h

theorem each_cons : Each Edit front (c :: cuts) tail ↔
    Edit (front ++ c.gap) c.old c.new (before cuts ++ tail) ∧
      Each Edit (front ++ (c.gap ++ c.old)) cuts tail := by
  constructor
  · intro h
    refine ⟨by simpa using h [] c cuts rfl, fun cs e ds hcuts => ?_⟩
    simpa using h (c :: cs) e ds (by rw [hcuts, List.cons_append])
  · rintro ⟨hc, hrest⟩ cs e ds hcuts
    cases cs with
    | nil =>
      obtain ⟨rfl, rfl⟩ : c = e ∧ cuts = ds := by simpa using hcuts
      simpa using hc
    | cons c' cs =>
      obtain ⟨rfl, hbehind⟩ : c = c' ∧ cuts = cs ++ e :: ds := by simpa using hcuts
      simpa using hrest cs e ds hbehind

theorem Each.imp (h : Each Edit front cuts tail)
    (himp : ∀ {a old new b}, Edit a old new b → Edit' a old new b) : Each Edit' front cuts tail :=
  fun cs c ds hcuts => himp (h cs c ds hcuts)

end Each
end Cut

open Cut (Each)

/-- A rewritten text is cut into gaps and edits. -/
theorem Rewritten.exists_cuts {Edit : Text → Text → Text → Text → Prop} {front text out : Text}
    {n : Nat} (h : Rewritten Edit front text out n) :
    ∃ (cuts : List Cut) (tail : Text), text = Cut.before cuts ++ tail ∧
      out = Cut.after cuts ++ tail ∧ n = cuts.length ∧ Each Edit front cuts tail := by
  induction h with
  | done front => exact ⟨[], [], rfl, rfl, rfl, Cut.each_nil front []⟩
  | @keep front rest out n c _ ih =>
    obtain ⟨cuts, tail, rfl, rfl, rfl, heach⟩ := ih
    cases cuts with
    | nil => exact ⟨[], c :: tail, rfl, rfl, rfl, Cut.each_nil front _⟩
    | cons e cuts =>
      obtain ⟨he, hrest⟩ := Cut.each_cons.1 heach
      refine ⟨{ e with gap := c :: e.gap } :: cuts, tail, by simp, by simp, rfl, ?_⟩
      exact Cut.each_cons.2 ⟨by simpa using he, by simpa using hrest⟩
  | @edit front old new rest out n hedit _ ih =>
    obtain ⟨cuts, tail, rfl, rfl, rfl, heach⟩ := ih
    refine ⟨⟨[], old, new⟩ :: cuts, tail, by simp, by simp, rfl, ?_⟩
    exact Cut.each_cons.2 ⟨by simpa using hedit, by simpa using heach⟩

/-! Literals lie in gaps -/

/-- The range that an edit replaces is code. -/
def CodeEdit (text : Text) (d : Dialect) (front old _new _after : Text) : Prop :=
  old ≠ [] ∧
    (ScopeMap.scan text d).isCode (Text.size front) (Text.size (front ++ old)) = true

section Literals

variable {text : Text} {d : Dialect} {tail : Text} {cuts : List Cut}

/-- A span that is not code lies in one of the gaps. -/
theorem Cut.exists_gap {front : Text} (htext : text = front ++ (Cut.before cuts ++ tail))
    (heach : Each (CodeEdit text d) front cuts tail) {s : Span}
    (hs : s ∈ (ScopeMap.scan text d).spans) (hkind : s.kind ≠ .code)
    (hfront : Text.size front ≤ s.start) :
    ∃ cs ds, cuts = cs ++ ds ∧ Text.size (front ++ Cut.before cs) ≤ s.start ∧
      s.stop ≤ Text.size (front ++ Cut.before cs ++ Cut.nextGap tail ds) := by
  induction cuts generalizing front with
  | nil =>
    have hstop := ScopeMap.stop_le_size hs
    rw [htext] at hstop
    exact ⟨[], [], rfl, by simpa using hfront, by simpa [Cut.nextGap] using hstop⟩
  | cons c cuts ih =>
    obtain ⟨⟨hne, hcode⟩, hrest⟩ := Cut.each_cons.1 heach
    by_cases hgap : s.stop ≤ Text.size (front ++ c.gap)
    · exact ⟨[], c :: cuts, rfl, by simpa using hfront, by simpa [Cut.nextGap] using hgap⟩
    · have hlt : Text.size (front ++ c.gap) < Text.size (front ++ c.gap ++ c.old) := by
        have := Text.size_pos hne
        rw [Text.size_append _ c.old]
        omega
      have hbehind : Text.size (front ++ c.gap ++ c.old) ≤ s.start := by
        by_contra hin
        exact hkind (ScopeMap.kind_of_isCode hcode hlt hs (by omega) (by omega))
      rw [List.append_assoc] at hbehind
      obtain ⟨cs, ds, rfl, hle, hstop⟩ := ih (by rw [htext]; simp) hrest hbehind
      exact ⟨c :: cs, ds, rfl, by simpa using hle, by simpa using hstop⟩

/-- The characters whose labels are not code all lie in the gaps, in the same order. -/
theorem Cut.filter_labels_sublist {L M : List Scope.Label}
    (hlabels : Scope.labels d {} 0 text = L ++ M) (hM : M.map Prod.snd = Cut.before cuts ++ tail)
    (heach : Each (CodeEdit text d) (L.map Prod.snd) cuts tail) :
    ((M.filter (·.1 ≠ .code)).map Prod.snd).Sublist (cuts.flatMap Cut.gap ++ tail) := by
  induction cuts generalizing L M with
  | nil =>
    obtain rfl : M.map Prod.snd = tail := by simpa using hM
    exact List.filter_sublist.map _
  | cons c cuts ih =>
    obtain ⟨⟨-, hcode⟩, hrest⟩ := Cut.each_cons.1 heach
    rw [Cut.before_cons, List.append_assoc, List.append_assoc] at hM
    obtain ⟨G, M', rfl, hG, hM'⟩ := List.map_eq_append_iff.1 hM
    obtain ⟨O, M, rfl, hO, hM⟩ := List.map_eq_append_iff.1 hM'
    have htext : text = L.map Prod.snd ++ c.gap ++ c.old ++ M.map Prod.snd := by
      rw [← Scope.map_snd_labels d {} 0 text, hlabels, ← hG, ← hO]
      simp
    have hcodeO : O = c.old.map (Prod.mk .code) := by
      have hsplit : Scope.labels d {} 0 text = (L ++ G) ++ O ++ M := by simp [hlabels]
      rw [htext] at hcode hsplit
      exact labels_of_isCode hcode (by simp [hG]) hO hsplit
    have hnone : O.filter (·.1 ≠ .code) = [] := by simp [hcodeO]
    have hsub := ih (L := L ++ (G ++ O)) (by rw [hlabels]; simp) hM (by simpa [hG, hO] using hrest)
    rw [List.filter_append, List.filter_append, hnone, List.nil_append, List.map_append,
      List.flatMap_cons, List.append_assoc]
    exact (hG ▸ List.filter_sublist.map _).append hsub

end Literals

/-! Guarded matches -/

namespace Rule

/-- The byte whose frame counts: the start of the anchor group if that took part in the match, and
the start of the match if not. -/
inductive AnchoredAt (r : Rule) (m : Match) : Nat → Prop
  | group {i pos : Nat} {t : Text} : r.anchor? = some i → m.group? i = some (pos, t) →
    AnchoredAt r m pos
  | whole : (∀ i, r.anchor? = some i → m.group? i = none) → AnchoredAt r m m.start.pos

/-- The template for a match: that of the first override that holds, or the rule's own. -/
inductive Chooses (r : Rule) (own path : String) (m : Match) : String → Prop
  | override {before after : List Override} {o : Override} : r.overrides = before ++ o :: after →
    (∀ o' ∈ before, o'.holds r.pattern path m = false) → o.holds r.pattern path m = true →
    Chooses r own path m o.replacement
  | own : (∀ o ∈ r.overrides, o.holds r.pattern path m = false) → Chooses r own path m own

/-- The match `m` of the pattern is the text `old` between `before` and `after`. It is code all
through, its anchor is in a frame that the guard asks for, and `new` is what the template for it
comes to. -/
structure Guarded (r : Rule) (own path : String) (scope : ScopeMap) (before old new after : Text)
    (m : Match) : Prop where
  found : r.pattern.matchAt (.between before (old ++ after)) = some m
  start : m.start = .between before (old ++ after)
  stop : m.stop = .between (before ++ old) after
  way : r.pattern.node.Way m.start ⟨m.stop, m.starts, m.stops⟩ m.stop { stop := m.stop }
  nonempty : old ≠ []
  code : ∀ s ∈ scope.spans, s.start < Text.size (before ++ old) → Text.size before < s.stop →
    s.kind = .code
  frame : ∃ pos, r.AnchoredAt m pos ∧ r.guard.admits (scope.frameAt pos) = true
  filled : ∃ template, r.Chooses own path m template ∧
    new = Template.expand (fun ref => (ref.text? r.pattern m).getD []) template.toList

variable (r : Rule) (own path : String) {scope : ScopeMap} {m : Match}

theorem frame_of_admitted (h : r.placement scope m = .admitted) :
    ∃ pos, r.AnchoredAt m pos ∧ r.guard.admits (scope.frameAt pos) = true := by
  have hguard : r.guard.admits
      (scope.frameAt (((r.anchor?.bind m.group?).map (·.1)).getD m.start.pos)) = true := by
    simp only [placement] at h
    split at h
    · contradiction
    · split at h
      · assumption
      · contradiction
  cases hgroup : r.anchor?.bind m.group? with
  | none =>
    rw [hgroup] at hguard
    exact ⟨_, .whole (Option.bind_eq_none_iff.1 hgroup), hguard⟩
  | some g =>
    obtain ⟨i, hi, hg⟩ := Option.bind_eq_some_iff.1 hgroup
    rw [hgroup] at hguard
    exact ⟨g.1, .group hi hg, hguard⟩

theorem chooses_templateFor (m : Match) : r.Chooses own path m (r.templateFor own path m) := by
  unfold templateFor
  cases hfind : r.overrides.find? (·.holds r.pattern path m) with
  | none => exact .own (by simpa using hfind)
  | some o =>
    obtain ⟨hholds, before, after, hover, hbefore⟩ := List.find?_eq_some_iff_append.1 hfind
    exact .override hover (by simpa using hbefore) hholds

/-- What a rule replaces is a guarded match. -/
theorem Replaces.guarded {r : Rule} {own path : String} {text : Text} {d : Dialect}
    {before old new after : Text}
    (h : r.Replaces own path (ScopeMap.scan text d) before old new after) :
    CodeEdit text d before old new after ∧
      ∃ m, r.Guarded own path (ScopeMap.scan text d) before old new after m := by
  obtain ⟨m, hm, hstop, hne, hadmitted, hnew⟩ := h
  obtain ⟨hstart, hway⟩ := Pattern.find?_way hm
  have hcode := isCode_of_admitted hadmitted
  rw [hstart, hstop] at hcode
  have hlt : Text.size before < Text.size (before ++ old) := by
    have := Text.size_pos hne
    rw [Text.size_append]
    omega
  exact ⟨⟨hne, hcode⟩, m, {
    found := by rw [Pattern.matchAt_eq, hm]
    start := hstart
    stop := hstop
    way := hstart.symm ▸ hway
    nonempty := hne
    code := fun s hs => ScopeMap.kind_of_isCode hcode hlt hs
    frame := r.frame_of_admitted hadmitted
    filled := ⟨_, r.chooses_templateFor own path m, hnew⟩ }⟩

/-- A rule that fixes cuts the text into gaps and guarded matches. The gaps stay, and among them lie
all the literals of the text; each match gives way to its template. The rule reports a change
exactly when the text is another one, and it is not when nothing was replaced. -/
theorem apply_keeps_gaps {r : Rule} {own : String} (h : r.replacement = some own) (text : Text)
    (ctx : Context) :
    let scope := ScopeMap.scan text ctx.dialect
    let out := r.apply text ctx
    (∃ (cuts : List Cut) (tail : Text), text = Cut.before cuts ++ tail ∧
      out.text = Cut.after cuts ++ tail ∧ out.fired = cuts.length ∧
      (∀ cs c ds, cuts = cs ++ c :: ds → ∃ m, r.Guarded own ctx.path scope
        (Cut.before cs ++ c.gap) c.old c.new (Cut.before ds ++ tail) m) ∧
      (∀ s ∈ scope.spans, s.kind ≠ .code → ∃ cs ds, cuts = cs ++ ds ∧
        Text.size (Cut.before cs) ≤ s.start ∧
        s.stop ≤ Text.size (Cut.before cs ++ Cut.nextGap tail ds)) ∧
      ((literals text ctx.dialect).flatMap Prod.snd).Sublist (cuts.flatMap Cut.gap ++ tail)) ∧
    (out.changed = true ↔ out.text ≠ text) ∧ (out.fired = 0 → out.text = text) := by
  intro scope out
  obtain ⟨cuts, tail, htext, hout, hfired, heach⟩ := (apply_rewritten h text ctx).exists_cuts
  have hcode : Each (CodeEdit text ctx.dialect) [] cuts tail := heach.imp fun h => h.guarded.1
  refine ⟨⟨cuts, tail, htext, hout, hfired, ?_, ?_, ?_⟩, ?_, apply_text_of_fired_eq_zero⟩
  · intro cs c ds hcuts
    exact (heach cs c ds hcuts).guarded.2
  · intro s hs hkind
    exact Cut.exists_gap htext hcode hs hkind (Nat.zero_le _)
  · rw [literals_eq, flatMap_literalRuns]
    exact Cut.filter_labels_sublist (L := []) rfl (by rw [Scope.map_snd_labels, htext]) hcode
  · rw [r.changed_apply text ctx]
    simp [out]

end Rule

/-- Makes the parameter `b` optional and gives `c` a value. -/
def optionalRule : Rule where
  id := "optional"
  category := "demo"
  pattern := {
    source := ",(?P<at>[bc])"
    node := .seq (.literal [',']) (.group 1 (some "at") (.one [(98, 99)]))
    groupNames := [none, some "at"] }
  replacement := some ",$at?"
  guard := .paramList
  overrides := [{ capture := some (.name "at"), equals := some "c", replacement := ",$at=0" }]

def optionalText : Text := "function f(a,b,c) \x7bg(a,b,',c')\x7d".toList

/-- Two of the four matches are parameters; the others are an argument and a part of a string. -/
theorem Rule.apply_keeps_gaps_optional :
    optionalRule.replacement = some ",$at?" ∧
    (optionalRule.apply optionalText .bare).text =
      "function f(a,b?,c=0) \x7bg(a,b,',c')\x7d".toList ∧
    ∃ (cuts : List Cut) (tail : Text), cuts.length = 2 ∧
      optionalText = Cut.before cuts ++ tail ∧
      "function f(a,b?,c=0) \x7bg(a,b,',c')\x7d".toList = Cut.after cuts ++ tail ∧
      ∀ cs c ds, cuts = cs ++ c :: ds → ∃ m,
        optionalRule.Guarded ",$at?" "" (ScopeMap.scan optionalText .script)
          (Cut.before cs ++ c.gap) c.old c.new (Cut.before ds ++ tail) m := by
  have hout : (optionalRule.apply optionalText .bare).text =
      "function f(a,b?,c=0) \x7bg(a,b,',c')\x7d".toList := by decide +kernel
  have hfired : (optionalRule.apply optionalText .bare).fired = 2 := by decide +kernel
  obtain ⟨⟨cuts, tail, htext, hafter, hlength, hguarded, -⟩, -⟩ :=
    Rule.apply_keeps_gaps (r := optionalRule) rfl optionalText .bare
  exact ⟨rfl, hout, cuts, tail, hlength.symm.trans hfired, htext, hout.symm.trans hafter, hguarded⟩

end SourceMend
