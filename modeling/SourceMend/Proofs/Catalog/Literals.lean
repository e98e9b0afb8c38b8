import SourceMend.Proofs.Catalog.Build
import SourceMend.Proofs.Scope.Locality

/-!
The built-in rules and literals. An annotation put into code or taken out of it stands before a
bracket or a mark that ends a member, and there the scanner forgets what it has read last. So the
labels of everything else stay, and with them the literals of the text.
-/
namespace SourceMend.Catalog

open Scope

theorem mode_closeBracket (k : Control) (c : Char) (pos : Nat) :
    (k.closeBracket c pos).mode = k.mode := by
  unfold Control.closeBracket
  split
  · rfl
  · simp only
    split <;> rfl

section Annotation

variable {d : Dialect} {k l : Control}

theorem labels_of_stepCode {c : Char} {pos : Nat} {cs : Text} {st : Step} (hm : k.mode = .code)
    (h : stepCode d k pos c cs = st) :
    labels d k pos (c :: cs) = (c :: cs.take st.extent).map (Prod.mk st.kind) ++
      labels d st.control (pos + Text.size (c :: cs.take st.extent)) (cs.drop st.extent) := by
  rw [labels, step, hm, h]

theorem labels_single {c : Char} {pos : Nat} {cs : Text} (hm : k.mode = .code)
    (h : stepCode d k pos c cs = ⟨.code, 0, l⟩) :
    labels d k pos (c :: cs) = (.code, c) :: labels d l (pos + c.utf8Size) cs := by
  rw [labels_of_stepCode hm h]
  simp

theorem labels_open (hm : k.mode = .code) (pos : Nat) (cs : Text) : labels d k pos ('[' :: cs) =
    (.code, '[') :: labels d (k.openBracket '[' pos .brackets {}) (pos + '['.utf8Size) cs :=
  labels_single hm (by simp [stepCode])

theorem labels_close (hm : k.mode = .code) (pos : Nat) (cs : Text) : labels d k pos (']' :: cs) =
    (.code, ']') :: labels d (k.closeBracket ']' pos) (pos + ']'.utf8Size) cs :=
  labels_single hm (by simp [stepCode])

/-- The memory behind an annotation. -/
def annotated (k : Control) : Control := (k.push (.punct ':')).push (.word "any")

theorem level_annotated (k : Control) : (annotated k).Level k := ⟨rfl, rfl, fun _ => rfl⟩

theorem labels_anyType (pos : Nat) {cs : Text} (hm : k.mode = .code)
    (hcs : ∀ z ∈ cs.head?, Token.isIdentContinue z = false) :
    ∃ at₂, labels d k pos (anyType ++ cs) =
      anyType.map (Prod.mk .code) ++ labels d (annotated k) at₂ cs := by
  have htake : ('n' :: 'y' :: cs).takeWhile Token.isIdentContinue = ['n', 'y'] := by
    rw [List.takeWhile_cons_of_pos (by decide), List.takeWhile_cons_of_pos (by decide)]
    cases cs with
    | nil => rfl
    | cons z cs => rw [List.takeWhile_cons_of_neg (by simpa using hcs)]
  have hcolon : stepCode d k pos ':' (' ' :: 'a' :: 'n' :: 'y' :: cs) =
      ⟨.code, 0, k.push (.punct ':')⟩ := by
    simp [stepCode, Token.isIdentStart]
  have hspace (l : Control) (p : Nat) : stepCode d l p ' ' ('a' :: 'n' :: 'y' :: cs) =
      ⟨.code, 0, l⟩ := by
    simp [stepCode]
  have hword (l : Control) (p : Nat) : stepCode d l p 'a' ('n' :: 'y' :: cs) =
      ⟨.code, 2, l.push (.word "any")⟩ := by
    simp [stepCode, Token.isIdentStart, htake]
  have hm₂ : (k.push (.punct ':')).mode = .code := hm
  have h₁ := labels_of_stepCode hm hcolon
  have h₂ := labels_of_stepCode hm₂ (hspace _ (pos + Text.size [':']))
  have h₃ := labels_of_stepCode hm₂ (hword _ (pos + Text.size [':'] + Text.size [' ']))
  exact ⟨_, h₁.trans (congrArg _ (h₂.trans (congrArg _ h₃)))⟩

/-- At a bracket or a mark that ends a member, what was read last is forgotten. -/
theorem stepCode_settles (h : k.Level l) {c : Char} (hc : c = '[' ∨ c = ';' ∨ c = ',' ∨ c = '}')
    (pos : Nat) {pos₂ : Nat} {cs : Text} (hcode : (stepCode d l pos₂ c cs).kind = .code) :
    (stepCode d k pos c cs).Alike (stepCode d l pos₂ c cs) := by
  rcases hc with rfl | rfl | rfl | rfl
  · simp only [stepCode, Char.reduceEq, false_and, or_self, if_false, if_true]
    exact ⟨rfl, rfl, h.openBracket (fun _ => rfl) _ _ _ _ _⟩
  · simp only [stepCode, Char.reduceEq, false_and, or_self, if_false, if_true]
    exact ⟨rfl, rfl, h.endStatement _⟩
  · have hpunct (m : Control) (p : Nat) :
        stepCode d m p ',' cs = ⟨.code, 0, m.push (.punct ',')⟩ := by
      simp [stepCode, Token.isIdentStart]
    rw [hpunct, hpunct]
    exact ⟨rfl, rfl, h.push _⟩
  · simp only [stepCode, Char.reduceEq, false_and, or_self, if_false, true_and, true_or, if_true,
      h.openers] at hcode ⊢
    split_ifs at hcode ⊢
    exact ⟨rfl, rfl, h.closeBracket _ _ _⟩

variable {c : Char} {s cs : Text} {R : List Label} (hs : ∀ x ∈ s, isSpace x = true)
  (hc : c = '[' ∨ c = ';' ∨ c = ',' ∨ c = '}')

include hs hc

theorem labels_settles (h : k.Level l) (hm : l.mode = .code) {pos pos₂ : Nat}
    (hlabels : labels d l pos₂ (s ++ c :: cs) = (s ++ [c]).map (Prod.mk .code) ++ R) :
    labels d k pos (s ++ c :: cs) = labels d l pos₂ (s ++ c :: cs) := by
  induction s generalizing pos pos₂ with
  | nil =>
    have hstep := labels_of_stepCode hm (rfl : stepCode d l pos₂ c cs = _)
    have hcode : (stepCode d l pos₂ c cs).kind = .code := by
      rw [List.nil_append, hstep] at hlabels
      simp only [List.nil_append, List.map_cons, List.cons_append, List.cons.injEq,
        Prod.mk.injEq] at hlabels
      exact hlabels.1.1
    obtain ⟨hkind, hextent, hcontrol⟩ := stepCode_settles h hc pos hcode
    rw [List.nil_append, hstep, labels_of_stepCode (h.mode.trans hm) rfl, hkind, hextent,
      labels_alike hcontrol]
  | cons x s ih =>
    obtain ⟨hx, hs⟩ := List.forall_mem_cons.1 hs
    have hspace (m : Control) (p : Nat) (t : Text) : stepCode d m p x t = ⟨.code, 0, m⟩ := by
      have hx' : x = ' ' ∨ x = '\t' := by simpa [isSpace] using hx
      rcases hx' with rfl | rfl <;> simp [stepCode]
    rw [List.cons_append, labels_single hm (hspace l _ _)] at hlabels ⊢
    rw [labels_single (h.mode.trans hm) (hspace k _ _), ih hs (List.cons.inj hlabels).2]

/-- An annotation before such a mark changes no label behind it. -/
theorem labels_anyType_append (hm : l.mode = .code) {pos : Nat}
    (hlabels : labels d l pos (s ++ c :: cs) = (s ++ [c]).map (Prod.mk .code) ++ R) :
    labels d l pos (anyType ++ (s ++ c :: cs)) =
      anyType.map (Prod.mk .code) ++ labels d l pos (s ++ c :: cs) := by
  have hhead : ∀ z ∈ (s ++ c :: cs).head?, Token.isIdentContinue z = false := by
    cases s with
    | nil => rcases hc with rfl | rfl | rfl | rfl <;> simp <;> decide
    | cons x s =>
      have hx : x = ' ' ∨ x = '\t' := by simpa [isSpace] using hs x List.mem_cons_self
      rcases hx with rfl | rfl <;> simp <;> decide
  obtain ⟨at₂, htype⟩ := labels_anyType (d := d) pos hm hhead
  rw [htype, labels_settles hs hc (level_annotated l) hm hlabels]

end Annotation
variable {d : Dialect} {before old new after : Text} {P : Text} {L R : List Label}

/-- An edit of code leaves all labels around it. -/
theorem Mend.labels (h : Mend before old new) (hL : L.map Prod.snd = P)
    (hold : labels d {} 0 (P ++ old ++ after) = L ++ old.map (Prod.mk .code) ++ R) :
    labels d {} 0 (P ++ new ++ after) = L ++ new.map (Prod.mk .code) ++ R := by
  -- The part `a` of the edit before its first inert character stays, so it belongs to the front.
  have hfront (a : Text) : (L ++ a.map (Prod.mk SpanKind.code)).map Prod.snd = P ++ a := by
    rw [List.map_append, hL, map_snd_mk]
  cases h with
  | @element a b =>
    obtain ⟨k, pos, hm, hhere, hany⟩ := labels_split (x := '[') (by decide) (P ++ a) (hfront a)
      (R := (']' :: b).map (Prod.mk .code) ++ R) (v := ']' :: b ++ after) (by simpa using hold)
    have hnew := calc
      Scope.labels d {} 0 (P ++ a ++ (anyType ++ ([] ++ '[' :: (']' :: b ++ after))))
      _ = L ++ a.map (Prod.mk .code) ++ _ := hany ':' _ (by decide)
      _ = _ := congrArg _ (labels_anyType_append (by simp) (.inl rfl) hm hhere)
      _ = _ := by rw [List.nil_append, hhere]
    simpa using hnew
  | @value a s c hindex hs hstop =>
    obtain ⟨k, pos, hm, hhere, hany⟩ := labels_split (x := ']') (by decide) (P ++ a) (hfront a)
      (R := (s ++ [c]).map (Prod.mk .code) ++ R) (v := s ++ c :: after) (by simpa using hold)
    -- The bracket itself is read as before, and leaves the scanner in code.
    have hm₂ := (mode_closeBracket k ']' pos).trans hm
    rw [labels_close hm] at hhere
    have hbehind := (List.cons.inj hhere).2
    have hnew := calc
      Scope.labels d {} 0 (P ++ a ++ (']' :: (anyType ++ (s ++ c :: after))))
      _ = L ++ a.map (Prod.mk .code) ++ _ := hany ']' _ (by decide)
      _ = _ := by rw [labels_close hm, labels_anyType_append hs (.inr hstop) hm₂ hbehind, hbehind]
    simpa using hnew
  | @takeBack a b =>
    obtain ⟨k, pos, hm, hhere, hany⟩ := labels_split (x := ':') (by decide) (P ++ a) (hfront a)
      (R := (anyType.tail ++ '[' :: ']' :: b).map (Prod.mk .code) ++ R)
      (v := anyType.tail ++ '[' :: (']' :: b ++ after)) (by simpa [anyType] using hold)
    have hinsert := labels_anyType_append (s := []) (by simp) (.inl rfl) hm
      (labels_open (d := d) hm pos (']' :: b ++ after))
    have hbehind : Scope.labels d k pos ('[' :: (']' :: b ++ after)) =
        ('[' :: ']' :: b).map (Prod.mk .code) ++ R :=
      List.append_cancel_left (hinsert.symm.trans hhere)
    have hnew := hany '[' (']' :: b ++ after) (by decide)
    rw [hbehind] at hnew
    simpa using hnew

theorem Mend.ne_nil (h : Mend before old new) : old ≠ [] ∧ new ≠ [] := by
  cases h <;> simp

/-- Edits side by side in the code of a text leave the runs of its labels. The front `P` of the text
is already rewritten, and what follows has the labels that it has in the whole text. -/
theorem literalRuns_rewritten {whole : Text} {Edit : Text → Text → Text → Text → Prop}
    (hedit : ∀ {before old new after}, Edit before old new after →
      (ScopeMap.scan whole d).isCode (Text.size before) (Text.size (before ++ old)) = true ∧
        Mend before old new)
    {text out : Text} {n : Nat} (h : Rewritten Edit before text out n)
    (hwhole : whole = before ++ text) {B : List Label} (hB : B.map Prod.snd = before)
    (hscan : Scope.labels d {} 0 whole = B ++ R) (hL : L.map Prod.snd = P)
    (hlabels : Scope.labels d {} 0 (P ++ text) = L ++ R) :
    literalRuns (Scope.labels d {} 0 (P ++ out)) = literalRuns (L ++ R) := by
  have htext : R.map Prod.snd = text := by
    have hmap := map_snd_labels d {} 0 (P ++ text)
    rw [hlabels, List.map_append, hL] at hmap
    exact List.append_cancel_left hmap
  induction h generalizing P L B R with
  | done => rw [hlabels]
  | @keep before rest out n c _ ih =>
    obtain ⟨r, R, rfl, rfl, hrest⟩ := List.map_eq_cons_iff.1 htext
    have hkeep := ih (P := P ++ [r.2]) (L := L ++ [r]) (B := B ++ [r]) (R := R)
      (by simpa using hwhole) (by simp [hB]) (by simpa using hscan) (by simp [hL])
      (by simpa using hlabels) hrest
    simpa using hkeep
  | @edit before old new rest out n he _ ih =>
    obtain ⟨M, R, rfl, hM, hrest⟩ := List.map_eq_append_iff.1 htext
    obtain ⟨hcode, hmend⟩ := hedit he
    obtain ⟨hold, hnew⟩ := hmend.ne_nil
    rw [← List.append_assoc] at hwhole
    subst hwhole
    rw [← List.append_assoc B] at hscan
    rw [← List.append_assoc, ← List.append_assoc L] at hlabels
    obtain rfl := labels_of_isCode hcode hB hM hscan
    have hmended := hmend.labels hL hlabels
    have hbehind := ih (P := P ++ new) (B := B ++ old.map (Prod.mk .code)) rfl (by simp [hB, hM])
      hscan (by simp [hL]) hmended hrest
    rw [← List.append_assoc, hbehind, ← List.append_assoc, literalRuns_swap_code L R hnew hold]

/-- A rule of the catalog keeps the literals of every text. -/
theorem literals_apply {r : Rule} (hr : r ∈ fixers) (text : Text) (ctx : Context) :
    literals (r.apply text ctx).text ctx.dialect = literals text ctx.dialect := by
  obtain ⟨⟨spec, node⟩, hf, rfl⟩ := List.mem_map.1 hr
  obtain ⟨own, hown⟩ := Option.isSome_iff_exists.1 (traits_fixes _ hf).1
  have hmends : Mends spec node := mends_fixes _ hf
  have hrewritten := Rule.apply_rewritten (r := spec.toRule node) hown text ctx
  rw [literals_eq, literals_eq]
  exact literalRuns_rewritten (P := []) (L := []) (B := []) (hmends hown) hrewritten rfl rfl rfl
    rfl rfl

theorem literals_applyAll {rules : List Rule} (h : ∀ r ∈ rules, r ∈ fixers) (text : Text)
    (ctx : Context) :
    literals (RuleSet.applyAll ctx rules text) ctx.dialect = literals text ctx.dialect := by
  induction rules generalizing text with
  | nil => rfl
  | cons r rules ih =>
    obtain ⟨hr, hrules⟩ := List.forall_mem_cons.1 h
    exact (ih hrules _).trans (literals_apply hr text ctx)

/-- No pass changes a literal. -/
theorem literals_orbit (ctx : Context) (text : Text) (n : Nat) :
    literals (builtin.orbit ctx text n) ctx.dialect = literals text ctx.dialect := by
  induction n with
  | zero => rfl
  | succ n ih =>
    rw [RuleSet.orbit, RuleSet.applyPass_text, fixRules_builtin,
      literals_applyAll (fun r hr => hr), ih]

/-- The catalog can be built, and a repair with it keeps the literals of every text: their kinds,
their texts and their order. -/
theorem literals_repair : ∃ rules, ruleSet = .ok rules ∧
    ∀ (text : Text) (ctx : Context) (maxPasses : UInt32),
      literals (rules.repair maxPasses text ctx).content ctx.dialect =
        literals text ctx.dialect := by
  refine ⟨builtin, ruleSet_eq, fun text ctx maxPasses => ?_⟩
  have hend := builtin.repair_ending maxPasses text ctx
  generalize builtin.repair maxPasses text ctx = out at hend
  cases hend with
  | exhausted => exact literals_orbit ctx text _
  | converged => exact literals_orbit ctx text _
  | oscillating =>
    dsimp only
    exact literals_orbit ctx text _

end SourceMend.Catalog
