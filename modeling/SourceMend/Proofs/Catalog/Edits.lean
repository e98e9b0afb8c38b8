import Mathlib.Tactic.FinCases
import SourceMend.Proofs.Catalog.Flaws
import SourceMend.Proofs.Catalog.Patterns
import SourceMend.Proofs.Rule.Filling

/-!
The edits of the built-in rules. Each rule that fixes has a pattern in parts, so what it matches is
read off its parts, and every replacement it makes is one of the edits of `Mend`: an element type
or a value type put in, or an element type taken back.
-/
namespace SourceMend.Catalog

open Pattern (Cursor Node)

/-- A set of single characters holds no others. -/
theorem mem_of_contains_points {chars : List Char} {c : Char}
    (h : CharSet.contains (chars.map fun d => (d.toNat, d.toNat)) c = true) : c ∈ chars := by
  induction chars with
  | nil => simp [CharSet.contains, CharSet.containsCode] at h
  | cons d chars ih =>
    simp only [CharSet.contains, List.map_cons, CharSet.containsCode] at h
    split at h
    · contradiction
    · next hle =>
      rcases Bool.or_eq_true_iff.1 h with h | h
      · have hn : c.toNat = d.toNat := by
          have := of_decide_eq_true h
          omega
        exact List.mem_cons.2 (.inl (Char.toNat_inj.1 hn))
      · exact List.mem_cons_of_mem d (ih h)

theorem isBreak_of_contains {set : CharSet} (h : breaks.all (fun b => !set.contains b) = true)
    {c : Char} (hc : set.contains c = true) : isBreak c = false := by
  by_contra hb
  have hmem : c ∈ breaks := by simpa [isBreak] using hb
  have := List.all_eq_true.1 h c hmem
  simp [hc] at this

theorem isEdge_of_isBreak {c : Char} (h : isBreak c = false) : isEdge c = false := by
  simp only [isBreak, isEdge, List.contains_iff_mem, breaks, List.mem_append, ← Bool.not_eq_true,
    not_or] at h ⊢
  exact h.1

theorem isBreak_initial {c : Char} (h : initialSet.contains c = true) : isBreak c = false :=
  isBreak_of_contains (by decide) h

theorem isBreak_name {c : Char} (h : nameSet.contains c = true) : isBreak c = false :=
  isBreak_of_contains (by decide) h

theorem isBreak_path {c : Char} (h : pathSet.contains c = true) : isBreak c = false :=
  isBreak_of_contains (by decide) h

theorem isSpace_of_contains {c : Char} (h : spaceSet.contains c = true) : isSpace c = true := by
  have hmem : c ∈ ['\t', ' '] := mem_of_contains_points h
  simpa [isSpace, or_comm] using hmem

section Left

variable {n g l : Text}

theorem typed_run (hn : ∀ c ∈ n, isBreak c = false)
    (hl : typeMarks.any (·.isPrefixOf (l.dropWhile (!isBreak ·))) = true) :
    typed (n.reverse ++ l) = true := by
  have hdrop : (n.reverse ++ l).dropWhile (!isBreak ·) = l.dropWhile (!isBreak ·) :=
    List.dropWhile_append_of_pos (by simpa using hn)
  rw [typed, hdrop, hl, Bool.or_true]

/-- A name behind a text that ends with no type mark has no type. -/
theorem untyped_run (hn : ∀ c ∈ n, isBreak c = false) (hne : n ≠ [])
    (hl : typeMarks.any (·.isPrefixOf (l.dropWhile (!isBreak ·))) = false) :
    named (n.reverse ++ l) = true ∧ typed (n.reverse ++ l) = false := by
  have hdrop : (n.reverse ++ l).dropWhile (!isBreak ·) = l.dropWhile (!isBreak ·) :=
    List.dropWhile_append_of_pos (by simpa using hn)
  obtain ⟨c, r, hr⟩ := List.exists_cons_of_ne_nil (List.reverse_ne_nil_iff.2 hne)
  have hc : isBreak c = false := hn c (by rw [← List.mem_reverse, hr]; simp)
  have hhead : (n.reverse ++ l).head? = some c := by simp [hr]
  have hgt : c ≠ '>' := by
    rintro rfl
    exact absurd hc (by decide)
  exact ⟨by simp [named, hhead, hc], by simp [typed, hhead, hgt, hdrop, hl]⟩

/-- A question mark is no type. -/
theorem untyped_question (l : Text) : named ('?' :: l) = true ∧ typed ('?' :: l) = false :=
  ⟨rfl, rfl⟩

/-- Spaces behind what is no mark are no mark. -/
theorem unmarked_spaces (hg : ∀ x ∈ g, isSpace x = true)
    (hl : ∀ c ∈ l.head?, c ∉ [':', 's', '|'] ∧ (g = [] → isBreak c = true ∧ c ∉ [' ', '<'])) :
    typeMarks.any (·.isPrefixOf ((g ++ l).dropWhile (!isBreak ·))) = false := by
  cases g with
  | nil =>
    cases l with
    | nil => rfl
    | cons c l =>
      obtain ⟨hbreak, hnot⟩ := (hl c rfl).2 rfl
      have hc : ¬ ' ' = c ∧ ¬ '<' = c := by simpa [eq_comm] using hnot
      simp [hbreak, typeMarks, List.isPrefixOf_cons_cons, hc]
  | cons x g =>
    obtain ⟨hx, hg⟩ := List.forall_mem_cons.1 hg
    have hsecond : ∀ c ∈ (g ++ l).head?, c ∉ [':', 's', '|'] := by
      cases g with
      | nil => exact fun c hc => (hl c hc).1
      | cons y g =>
        have hy : y = ' ' ∨ y = '\t' := by simpa [isSpace] using hg y (by simp)
        rcases hy with rfl | rfl <;> simp
    have hx' : x = ' ' ∨ x = '\t' := by simpa [isSpace] using hx
    rcases hx' with rfl | rfl
    · cases hgl : g ++ l with
      | nil => simp [hgl, isBreak, breaks, typeMarks, List.isPrefixOf_cons_cons]
      | cons y r =>
        have hy : ¬ ':' = y ∧ ¬ 's' = y ∧ ¬ '|' = y := by
          simpa [eq_comm] using hsecond y (by simp [hgl])
        simp [hgl, isBreak, breaks, typeMarks, List.isPrefixOf_cons_cons, hy]
    · simp [isBreak, breaks, typeMarks, List.isPrefixOf_cons_cons]

end Left

section Spelling

variable {s : Text}

theorem spells_spaces (h : spaces.Spells s) : ∀ x ∈ s, isSpace x = true :=
  fun x hx => isSpace_of_contains ((Node.spells_rep_one h).2 x hx)

theorem spells_gap (h : gap.Spells s) : s ≠ [] ∧ ∀ x ∈ s, isSpace x = true := by
  obtain ⟨hlen, hall⟩ := Node.spells_rep_one h
  exact ⟨List.length_pos_iff.1 hlen, fun x hx => isSpace_of_contains (hall x hx)⟩

/-- A name of any kind is a run of letters. -/
theorem spells_run {set : CharSet} (hset : ∀ c, set.contains c = true → isBreak c = false)
    {parts : List Node} (h : (Node.ofParts ([.one initialSet, star set] ++ parts)).Spells s) :
    ∃ x y, s = x ++ y ∧ x ≠ [] ∧ (∀ c ∈ x, isBreak c = false) ∧ (Node.ofParts parts).Spells y := by
  obtain ⟨x, r, rfl, ⟨c, hc, rfl⟩, hr⟩ := Node.spells_ofParts_cons h
  obtain ⟨y, z, rfl, hy, hz⟩ := Node.spells_ofParts_cons hr
  refine ⟨c :: y, z, by simp, by simp, List.forall_mem_cons.2 ⟨isBreak_initial hc, ?_⟩, hz⟩
  exact fun d hd => hset d ((Node.spells_rep_one hy).2 d hd)

theorem spells_name {parts : List Node} (h : (Node.ofParts (name ++ parts)).Spells s) :
    ∃ x y, s = x ++ y ∧ x ≠ [] ∧ (∀ c ∈ x, isBreak c = false) ∧ (Node.ofParts parts).Spells y :=
  spells_run (fun _ => isBreak_name) h

theorem spells_path {parts : List Node} (h : (Node.ofParts (path ++ parts)).Spells s) :
    ∃ x y, s = x ++ y ∧ x ≠ [] ∧ (∀ c ∈ x, isBreak c = false) ∧ (Node.ofParts parts).Spells y :=
  spells_run (fun _ => isBreak_path) h

/-- An index signature: between its brackets lie no edges. -/
theorem spells_indexSignature (h : indexSignature.Spells s) :
    ∃ a inner, s = a ++ '[' :: inner ++ [']'] ∧
      (a = [] ∨ ∃ g, a = "readonly".toList ++ g ∧ ∀ x ∈ g, isSpace x = true) ∧
      inner ≠ [] ∧ ∀ c ∈ inner, isEdge c = false := by
  have hspace {x : Text} (hx : spaces.Spells x) : ∀ c ∈ x, isEdge c = false := by
    intro c hc
    have : c = ' ' ∨ c = '\t' := by simpa [isSpace] using spells_spaces hx c hc
    rcases this with rfl | rfl <;> rfl
  have hrun {x : Text} (hx : ∀ c ∈ x, isBreak c = false) : ∀ c ∈ x, isEdge c = false :=
    fun c hc => isEdge_of_isBreak (hx c hc)
  obtain ⟨a, _, rfl, ha, rest1⟩ := Node.spells_ofParts_cons h
  obtain ⟨_, _, rfl, rfl, rest2⟩ := Node.spells_ofParts_cons rest1
  obtain ⟨x1, _, rfl, h1, rest3⟩ := Node.spells_ofParts_cons rest2
  obtain ⟨x2, _, rfl, hne, h2, rest4⟩ := spells_name rest3
  obtain ⟨x3, _, rfl, h3, rest5⟩ := Node.spells_ofParts_cons rest4
  obtain ⟨_, _, rfl, rfl, rest6⟩ := Node.spells_ofParts_cons rest5
  obtain ⟨x4, _, rfl, h4, rest7⟩ := Node.spells_ofParts_cons rest6
  obtain ⟨x5, _, rfl, -, h5, rest8⟩ := spells_name rest7
  obtain ⟨x6, _, rfl, h6, rfl⟩ := Node.spells_ofParts_cons rest8
  refine ⟨a, x1 ++ x2 ++ x3 ++ [':'] ++ x4 ++ x5 ++ x6, by simp, ?_, by simp [hne], ?_⟩
  · rcases Node.spells_optional ha with rfl | ⟨_, g, rfl, rfl, hg⟩
    · exact .inl rfl
    · exact .inr ⟨g, rfl, (spells_gap hg).2⟩
  · simp only [List.forall_mem_append]
    exact ⟨⟨⟨⟨⟨⟨hspace h1, hrun h2⟩, hspace h3⟩, List.forall_mem_singleton.2 (by decide)⟩,
      hspace h4⟩, hrun h5⟩, hspace h6⟩

/-- Before a member stands the start of a line or the end of another member. -/
theorem lead_head {before rest : Text} {m : Cursor} {t : Pattern.Trail}
    (hw : lead.body.Way (.between before rest) t m t)
    (hr : (Cursor.between before rest).Reads s m) :
    ∀ c ∈ (before ++ s).reverse.head?, c ∈ ['\n', ',', ';', '{'] := by
  rcases hw with ⟨hlook, rfl, -⟩ | ⟨⟨c, hc, hread⟩, -⟩
  · obtain rfl := hr.unique (Cursor.Reads.refl _)
    have hprev : before.getLast?.all (· = '\n') = true := hlook
    intro c hc
    rw [List.append_nil, List.head?_reverse] at hc
    rw [hc] at hprev
    simp [show c = '\n' by simpa using hprev]
  · obtain rfl := hr.unique hread
    have hmem : c ∈ [',', ';', '{'] := mem_of_contains_points hc
    intro d hd
    obtain rfl : c = d := by simpa using hd
    exact List.mem_cons_of_mem _ hmem

end Spelling

/-- What the rule of a written rule and its node replaces is code, and the edit is one of `Mend`. -/
def Mends (spec : RuleSpec) (node : Node) : Prop :=
  ∀ {own path : String} {scope : ScopeMap} {before old new after : Text},
    spec.replacement = some own →
    (spec.toRule node).Replaces own path scope before old new after →
      scope.isCode (Text.size before) (Text.size (before ++ old)) = true ∧ Mend before old new

/-- The text of an index signature, seen from its closing bracket. -/
theorem closesIndex_signature {l a inner : Text} (hne : inner ≠ [])
    (hinner : ∀ c ∈ inner, isEdge c = false)
    (ha : a = [] ∨ ∃ g, a = "readonly".toList ++ g ∧ ∀ x ∈ g, isSpace x = true)
    (hl : (l.dropWhile isSpace).head? ≠ some ':') :
    closesIndex (inner.reverse ++ '[' :: (a.reverse ++ l)) = true := by
  have hdrop : (inner.reverse ++ '[' :: (a.reverse ++ l)).dropWhile (!isEdge ·) =
      '[' :: (a.reverse ++ l) := by
    rw [List.dropWhile_append_of_pos (by simpa using hinner)]
    rfl
  have hcolon : ((a.reverse ++ l).dropWhile isSpace).head? ≠ some ':' := by
    rcases ha with rfl | ⟨g, rfl, hg⟩
    · exact hl
    · rw [List.reverse_append, List.append_assoc, List.dropWhile_append_of_pos (by simpa using hg)]
      simp [isSpace]
  obtain ⟨c, r, hr⟩ := List.exists_cons_of_ne_nil (List.reverse_ne_nil_iff.2 hne)
  have hc : isEdge c = false := hinner c (by rw [← List.mem_reverse, hr]; simp)
  simp only [closesIndex, hdrop, List.tail_cons]
  simp [hr, hc, hcolon]

/-- Before the margin of a member stands no colon. -/
theorem margin_head {before margin : Text} (hmargin : ∀ x ∈ margin, isSpace x = true)
    (hlead : ∀ c ∈ before.reverse.head?, c ∈ ['\n', ',', ';', '{']) :
    ((margin.reverse ++ before.reverse).dropWhile isSpace).head? ≠ some ':' := by
  rw [List.dropWhile_append_of_pos (by simpa using hmargin)]
  cases hb : before.reverse with
  | nil => simp
  | cons c l =>
    have hc : c ∈ ['\n', ',', ';', '{'] := hlead c (by simp [hb])
    fin_cases hc <;> simp [isSpace]

/-- What the template of a rule puts together. -/
def plan? (s : RuleSpec) (node : Node) : Option (List Template.Piece) :=
  s.replacement.map fun own => Template.plan (s.toRule node).pattern own.toList

theorem plan_eq_of_plan? {s : RuleSpec} {node : Node} {pieces : List Template.Piece} {own : String}
    (h : plan? s node = some pieces) (hown : s.replacement = some own) :
    Template.plan (s.toRule node).pattern own.toList = pieces := by
  simpa [plan?, hown] using h

/-- All templates in one evaluation. -/
theorem plans_fixes :
    plan? indexSignatureMissingValueType indexNode = some
      [.group (some 1), .group (some 2), .group (some 3), .char ':', .char ' ', .char 'a',
        .char 'n', .char 'y', .group (some 4)] ∧
    plan? arrayBareSuffix bareNode = some
      [.group (some 1), .group (some 2), .group (some 3), .char ':', .char ' ', .char 'a',
        .char 'n', .char 'y', .char '[', .char ']', .group (some 4)] ∧
    plan? arrayParamBareSuffix paramNode = some
      [.group (some 1), .group (some 2), .char ':', .char ' ', .char 'a', .char 'n', .char 'y',
        .char '[', .char ']', .group (some 3)] ∧
    plan? colonChainGenericArgument genericNode = some
      [.char '<', .group (some 1), .char '[', .char ']', .char '>'] ∧
    plan? colonChainCast castNode = some
      [.char 'a', .char 's', .char ' ', .group (some 1), .char '[', .char ']'] ∧
    plan? colonChainUnionMember unionNode = some
      [.char '|', .char ' ', .group (some 1), .char '[', .char ']'] ∧
    plan? colonChainCollapse collapseNode = some
      [.group (some 1), .group (some 2), .char ':', .char ' ', .group (some 3), .char '[',
        .char ']'] := by
  decide +kernel

/-- A rule whose pattern is in parts makes edits of `Mend` when it does so for any texts of them. -/
theorem mends_of_parts {s : RuleSpec} {parts : List Node} {pieces : List Template.Piece}
    (hplan : plan? s (.ofParts parts) = some pieces) (hflat : ∀ a ∈ parts, a.body.groups = [])
    (hnodup : (parts.filterMap Node.index?).Nodup)
    (hamong : pieces.all (·.isAmong (parts.filterMap Node.index?)) = true)
    (hmend : ∀ {before after : Text} {ss : List Text},
      Pattern.Reading parts (.between before (ss.flatten ++ after)) ss
        (.between (before ++ ss.flatten) after) →
      Mend before ss.flatten
        (pieces.flatMap (Template.Piece.written (Pattern.captured parts ss)))) :
    Mends s (.ofParts parts) := by
  intro own path scope before old new after hown h
  obtain ⟨hcode, ss, hread, rfl, rfl⟩ :=
    h.parts rfl hflat hnodup rfl (plan_eq_of_plan? hplan hown) hamong
  exact ⟨hcode, hmend hread⟩

theorem mends_index : Mends indexSignatureMissingValueType indexNode := by
  obtain ⟨hplan, -⟩ := plans_fixes
  refine mends_of_parts hplan (by decide) (by decide) (by decide)
    fun {before after ss} hread => ?_
  obtain ⟨s1, ss, k1, t1, rfl, hw1, hr1, hread⟩ := hread.uncons
  obtain ⟨s2, ss, k2, t2, rfl, hw2, hr2, hread⟩ := hread.uncons
  obtain ⟨s3, ss, k3, t3, rfl, hw3, hr3, hread⟩ := hread.uncons
  obtain ⟨s4, ss, k4, t4, rfl, hw4, hr4, hread⟩ := hread.uncons
  obtain rfl := hread.eq_nil
  have hlead := lead_head hw1 hr1
  have hmargin := spells_spaces (hw2.spells_of_reads rfl hr2)
  obtain ⟨a, inner, rfl, ha, hne, hinner⟩ := spells_indexSignature (hw3.spells_of_reads rfl hr3)
  obtain ⟨s, _, rfl, hs, c, hc, rfl⟩ := hw4.spells_of_reads rfl hr4
  have hindex : closesIndex (before ++ (s1 ++ s2 ++ a ++ '[' :: inner)).reverse = true := by
    have := closesIndex_signature hne hinner ha (margin_head hmargin hlead)
    simpa using this
  have hstop : c ∈ [',', ';', '}'] := mem_of_contains_points hc
  have hmend := Mend.value hindex (spells_spaces hs) (c := c) (by simpa [or_left_comm] using hstop)
  simpa [Template.Piece.written, Pattern.captured, Node.index?, List.lookup_cons, lead, margin,
    anyType] using hmend

/-- What a name with its modifiers ends with, behind a margin: no type. -/
theorem spells_member {s before margin : Text} (h : member.Spells s)
    (hmargin : ∀ x ∈ margin, isSpace x = true)
    (hlead : ∀ c ∈ before.reverse.head?, c ∈ ['\n', ',', ';', '{']) :
    named (s.reverse ++ (margin.reverse ++ before.reverse)) = true ∧
      typed (s.reverse ++ (margin.reverse ++ before.reverse)) = false := by
  obtain ⟨mods, _, rfl, hmods, rest⟩ := Node.spells_ofParts_cons h
  obtain ⟨n, q, rfl, hne, hn, hq⟩ := spells_name rest
  rcases Node.spells_optional hq with rfl | rfl
  · have hunmarked : typeMarks.any (·.isPrefixOf
        ((mods.reverse ++ (margin.reverse ++ before.reverse)).dropWhile (!isBreak ·))) = false := by
      obtain ⟨k, -, -, hp⟩ := hmods
      rcases hp.last with rfl | ⟨a, _, rfl, w, g, rfl, hw, hg⟩
      · rw [List.reverse_nil, List.nil_append]
        refine unmarked_spaces (by simpa using hmargin) fun c hc => ?_
        have hc := hlead c hc
        fin_cases hc <;> exact ⟨by decide, fun _ => by decide⟩
      · obtain ⟨hgne, hg⟩ := spells_gap hg
        rw [List.reverse_append, List.reverse_append, List.append_assoc, List.append_assoc]
        refine unmarked_spaces (by simpa using hg) fun c hc => ⟨?_, by simp [hgne]⟩
        rcases hw with rfl | rfl | rfl | rfl | rfl | rfl <;>
          obtain rfl := Option.some.inj hc <;> decide
    have := untyped_run hn hne hunmarked
    simpa using this
  · simpa using untyped_question (n.reverse ++ (mods.reverse ++ (margin.reverse ++ before.reverse)))

theorem mends_bare : Mends arrayBareSuffix bareNode := by
  obtain ⟨-, hplan, -⟩ := plans_fixes
  refine mends_of_parts hplan (by decide) (by decide) (by decide)
    fun {before after ss} hread => ?_
  obtain ⟨s1, ss, k1, t1, rfl, hw1, hr1, hread⟩ := hread.uncons
  obtain ⟨s2, ss, k2, t2, rfl, hw2, hr2, hread⟩ := hread.uncons
  obtain ⟨s3, ss, k3, t3, rfl, hw3, hr3, hread⟩ := hread.uncons
  obtain ⟨s4, ss, k4, t4, rfl, hw4, hr4, hread⟩ := hread.uncons
  obtain ⟨s5, ss, k5, t5, rfl, hw5, hr5, hread⟩ := hread.uncons
  obtain rfl := hread.eq_nil
  obtain rfl : s4 = ['[', ']'] := hw4.spells_of_reads rfl hr4
  obtain ⟨hname, htype⟩ := spells_member (hw3.spells_of_reads rfl hr3)
    (spells_spaces (hw2.spells_of_reads rfl hr2)) (lead_head hw1 hr1)
  have hmend : Mend before (s1 ++ s2 ++ s3 ++ '[' :: ']' :: s5)
      (s1 ++ s2 ++ s3 ++ anyType ++ '[' :: ']' :: s5) :=
    .element (by simpa using hname) (by simpa using htype)
  simpa [Template.Piece.written, Pattern.captured, Node.index?, List.lookup_cons, lead, margin,
    anyType, word] using hmend

/-- What a parameter ends with behind the bracket or comma before it: no type. -/
theorem spells_parameter {s margin : Text} {c : Char} (h : parameter.Spells s)
    (hmargin : ∀ x ∈ margin, isSpace x = true) (hc : c ∈ ['(', ',']) (l : Text) :
    named (s.reverse ++ (margin.reverse ++ c :: l)) = true ∧
      typed (s.reverse ++ (margin.reverse ++ c :: l)) = false := by
  obtain ⟨dots, _, rfl, hdots, rest⟩ := Node.spells_ofParts_cons h
  obtain ⟨n, q, rfl, hne, hn, hq⟩ := spells_name rest
  rcases Node.spells_optional hq with rfl | rfl
  · have hrun : ∀ x ∈ dots ++ n, isBreak x = false := by
      refine List.forall_mem_append.2 ⟨?_, hn⟩
      rcases Node.spells_optional hdots with rfl | rfl
      · simp
      · show ∀ x ∈ ['.', '.', '.'], isBreak x = false
        simp only [List.forall_mem_cons]
        exact ⟨by decide, by decide, by decide, by simp⟩
    have hunmarked : typeMarks.any (·.isPrefixOf
        ((margin.reverse ++ c :: l).dropWhile (!isBreak ·))) = false := by
      refine unmarked_spaces (by simpa using hmargin) fun d hd => ?_
      obtain rfl := Option.some.inj hd
      fin_cases hc <;> exact ⟨by decide, fun _ => by decide⟩
    have := untyped_run hrun (by simp [hne]) hunmarked
    simpa using this
  · simpa using untyped_question (n.reverse ++ (dots.reverse ++ (margin.reverse ++ c :: l)))

theorem mends_param : Mends arrayParamBareSuffix paramNode := by
  obtain ⟨-, -, hplan, -⟩ := plans_fixes
  refine mends_of_parts hplan (by decide) (by decide) (by decide)
    fun {before after ss} hread => ?_
  obtain ⟨s1, ss, k1, t1, rfl, hw1, hr1, hread⟩ := hread.uncons
  obtain ⟨s2, ss, k2, t2, rfl, hw2, hr2, hread⟩ := hread.uncons
  obtain ⟨s3, ss, k3, t3, rfl, hw3, hr3, hread⟩ := hread.uncons
  obtain ⟨s4, ss, k4, t4, rfl, hw4, hr4, hread⟩ := hread.uncons
  obtain rfl := hread.eq_nil
  obtain rfl : s3 = ['[', ']'] := hw3.spells_of_reads rfl hr3
  obtain ⟨_, margin, rfl, ⟨c, hc, rfl⟩, hmargin⟩ := hw1.spells_of_reads rfl hr1
  obtain ⟨hname, htype⟩ := spells_parameter (hw2.spells_of_reads rfl hr2) (spells_spaces hmargin)
    (mem_of_contains_points hc) before.reverse
  have hmend : Mend before ([c] ++ margin ++ s2 ++ '[' :: ']' :: s4)
      ([c] ++ margin ++ s2 ++ anyType ++ '[' :: ']' :: s4) :=
    .element (by simpa using hname) (by simpa using htype)
  simpa [Template.Piece.written, Pattern.captured, Node.index?, List.lookup_cons, anyType,
    word] using hmend

/-- A fallback behind a type that follows a mark is taken back. -/
theorem mend_marked {before mark elem rest : Text} (helem : (Node.ofParts path).Spells elem)
    (hmark : typeMarks.any (·.isPrefixOf
      ((mark.reverse ++ before.reverse).dropWhile (!isBreak ·))) = true) :
    Mend before (mark ++ elem ++ anyType ++ '[' :: ']' :: rest)
      (mark ++ elem ++ '[' :: ']' :: rest) := by
  obtain ⟨n, _, rfl, -, hn, rfl⟩ :=
    spells_path (show (Node.ofParts (path ++ [])).Spells elem from helem)
  have htype := typed_run hn hmark
  exact .takeBack (by simpa using htype)

theorem mends_generic : Mends colonChainGenericArgument genericNode := by
  obtain ⟨-, -, -, hplan, -⟩ := plans_fixes
  refine mends_of_parts hplan (by decide) (by decide) (by decide)
    fun {before after ss} hread => ?_
  obtain ⟨s1, ss, k1, t1, rfl, hw1, hr1, hread⟩ := hread.uncons
  obtain ⟨s2, ss, k2, t2, rfl, hw2, hr2, hread⟩ := hread.uncons
  obtain ⟨s3, ss, k3, t3, rfl, hw3, hr3, hread⟩ := hread.uncons
  obtain rfl := hread.eq_nil
  obtain rfl : s1 = ['<'] := hw1.spells_of_reads rfl hr1
  obtain rfl : s3 = anyType ++ ['[', ']', '>'] := hw3.spells_of_reads rfl hr3
  have hmend : Mend before (['<'] ++ s2 ++ anyType ++ '[' :: ']' :: ['>'])
      (['<'] ++ s2 ++ '[' :: ']' :: ['>']) := mend_marked (hw2.spells_of_reads rfl hr2) rfl
  simpa [Template.Piece.written, Pattern.captured, Node.index?, List.lookup_cons, element, word,
    anyType] using hmend

theorem mends_cast : Mends colonChainCast castNode := by
  obtain ⟨-, -, -, -, hplan, -⟩ := plans_fixes
  refine mends_of_parts hplan (by decide) (by decide) (by decide)
    fun {before after ss} hread => ?_
  obtain ⟨s1, ss, k1, t1, rfl, hw1, hr1, hread⟩ := hread.uncons
  obtain ⟨s2, ss, k2, t2, rfl, hw2, hr2, hread⟩ := hread.uncons
  obtain ⟨s3, ss, k3, t3, rfl, hw3, hr3, hread⟩ := hread.uncons
  obtain ⟨s4, ss, k4, t4, rfl, hw4, hr4, hread⟩ := hread.uncons
  obtain rfl := hread.eq_nil
  obtain ⟨-, rfl, -⟩ := hw1
  obtain rfl : s1 = [] := hr1.unique (Cursor.Reads.refl _)
  obtain rfl : s2 = ['a', 's', ' '] := hw2.spells_of_reads rfl hr2
  obtain rfl : s4 = anyType ++ ['[', ']'] := hw4.spells_of_reads rfl hr4
  have hmend : Mend before (['a', 's', ' '] ++ s3 ++ anyType ++ '[' :: ']' :: [])
      (['a', 's', ' '] ++ s3 ++ '[' :: ']' :: []) := mend_marked (hw3.spells_of_reads rfl hr3) rfl
  simpa [Template.Piece.written, Pattern.captured, Node.index?, List.lookup_cons, element, word,
    anyType] using hmend

theorem mends_union : Mends colonChainUnionMember unionNode := by
  obtain ⟨-, -, -, -, -, hplan, -⟩ := plans_fixes
  refine mends_of_parts hplan (by decide) (by decide) (by decide)
    fun {before after ss} hread => ?_
  obtain ⟨s1, ss, k1, t1, rfl, hw1, hr1, hread⟩ := hread.uncons
  obtain ⟨s2, ss, k2, t2, rfl, hw2, hr2, hread⟩ := hread.uncons
  obtain ⟨s3, ss, k3, t3, rfl, hw3, hr3, hread⟩ := hread.uncons
  obtain rfl := hread.eq_nil
  obtain rfl : s1 = ['|', ' '] := hw1.spells_of_reads rfl hr1
  obtain rfl : s3 = anyType ++ ['[', ']'] := hw3.spells_of_reads rfl hr3
  have hmend : Mend before (['|', ' '] ++ s2 ++ anyType ++ '[' :: ']' :: [])
      (['|', ' '] ++ s2 ++ '[' :: ']' :: []) := mend_marked (hw2.spells_of_reads rfl hr2) rfl
  simpa [Template.Piece.written, Pattern.captured, Node.index?, List.lookup_cons, element, word,
    anyType] using hmend

theorem mends_collapse : Mends colonChainCollapse collapseNode := by
  obtain ⟨-, -, -, -, -, -, hplan⟩ := plans_fixes
  refine mends_of_parts hplan (by decide) (by decide) (by decide)
    fun {before after ss} hread => ?_
  obtain ⟨s1, ss, k1, t1, rfl, hw1, hr1, hread⟩ := hread.uncons
  obtain ⟨s2, ss, k2, t2, rfl, hw2, hr2, hread⟩ := hread.uncons
  obtain ⟨s3, ss, k3, t3, rfl, hw3, hr3, hread⟩ := hread.uncons
  obtain ⟨s4, ss, k4, t4, rfl, hw4, hr4, hread⟩ := hread.uncons
  obtain ⟨s5, ss, k5, t5, rfl, hw5, hr5, hread⟩ := hread.uncons
  obtain rfl := hread.eq_nil
  obtain rfl : s3 = [':', ' '] := hw3.spells_of_reads rfl hr3
  obtain rfl : s5 = anyType ++ ['[', ']'] := hw5.spells_of_reads rfl hr5
  obtain ⟨n, args, rfl, -, hn, hargs⟩ := spells_path (hw4.spells_of_reads rfl hr4)
  have htype : typed (before ++ (s1 ++ s2 ++ [':', ' '] ++ (n ++ args))).reverse = true := by
    rcases Node.spells_optional hargs with rfl | hargs
    · have := typed_run hn
        (show typeMarks.any (·.isPrefixOf ((' ' :: ':' :: (s2.reverse ++ (s1.reverse ++
          before.reverse))).dropWhile (!isBreak ·))) = true from rfl)
      simpa using this
    · obtain ⟨_, _, rfl, -, rest⟩ := Node.spells_ofParts_cons hargs
      obtain ⟨_, _, rfl, -, rfl⟩ := Node.spells_ofParts_cons rest
      simp [typed]
  have hmend : Mend before
      (s1 ++ s2 ++ [':', ' '] ++ (n ++ args) ++ anyType ++ '[' :: ']' :: [])
      (s1 ++ s2 ++ [':', ' '] ++ (n ++ args) ++ '[' :: ']' :: []) := .takeBack htype
  simpa [Template.Piece.written, Pattern.captured, Node.index?, List.lookup_cons, word,
    anyType] using hmend

end SourceMend.Catalog
