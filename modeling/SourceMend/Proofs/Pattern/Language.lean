import SourceMend.Proofs.Rule.Rewriting

/-!
The texts that patterns read. A node without assertions reads the texts of a language, and a
sequence of parts reads one text for each part, which is also the text of the group that the part
may be. So the text of a match and the texts of its groups are told by the parts of the pattern.
-/
namespace SourceMend.Pattern

theorem Cursor.Reads.unique {k l : Cursor} {s r : Text} (h : k.Reads s l) (h' : k.Reads r l) :
    s = r :=
  List.append_cancel_right (h.rest.symm.trans h'.rest)

/-- `n` pieces of a language, one behind the other. -/
def Pieces (P : Text → Prop) : Nat → Text → Prop
  | 0, s => s = []
  | n + 1, s => ∃ a b, s = a ++ b ∧ P a ∧ Pieces P n b

/-- The last of some pieces. -/
theorem Pieces.last {P : Text → Prop} {n : Nat} {s : Text} (h : Pieces P n s) :
    s = [] ∨ ∃ a b, s = a ++ b ∧ P b := by
  induction n generalizing s with
  | zero => exact .inl h
  | succ n ih =>
    obtain ⟨x, y, rfl, hx, hy⟩ := h
    rcases ih hy with rfl | ⟨a, b, rfl, hb⟩
    · exact .inr ⟨[], x, by simp, hx⟩
    · exact .inr ⟨x ++ a, b, by simp, hb⟩

namespace Node

/-- Whether a node has neither groups nor assertions. -/
def plain : Node → Bool
  | .empty | .literal _ | .one _ => true
  | .look _ | .group _ _ _ => false
  | .seq a b | .alt a b => a.plain && b.plain
  | .rep a _ _ _ => a.plain

/-- The texts that a plain node reads. -/
def Spells : Node → Text → Prop
  | .empty, s => s = []
  | .literal text, s => s = text
  | .one set, s => ∃ c, set.contains c = true ∧ s = [c]
  | .look _, _ | .group _ _ _, _ => False
  | .seq a b, s => ∃ x y, s = x ++ y ∧ a.Spells x ∧ b.Spells y
  | .alt a b, s => a.Spells s ∨ b.Spells s
  | .rep a least most _, s =>
    ∃ n, least ≤ n ∧ (∀ m ∈ most, n ≤ max least m) ∧ Pieces a.Spells n s

theorem Way.spells {a : Node} (ha : a.plain = true) {k l : Cursor} {t u : Trail}
    (h : a.Way k t l u) : ∃ s, a.Spells s ∧ k.Reads s l := by
  induction a generalizing k t l u with
  | empty => exact ⟨[], rfl, h.1 ▸ Cursor.Reads.refl k⟩
  | literal text => exact ⟨text, rfl, h.1⟩
  | one set =>
    obtain ⟨⟨c, hs, hc⟩, -⟩ := h
    exact ⟨[c], ⟨c, hs, rfl⟩, hc⟩
  | look | group => simp [plain] at ha
  | seq a b iha ihb =>
    obtain ⟨ha, hb⟩ := Bool.and_eq_true_iff.1 ha
    obtain ⟨m, v, h1, h2⟩ := h
    obtain ⟨x, hx, hr⟩ := iha ha h1
    obtain ⟨y, hy, hr'⟩ := ihb hb h2
    exact ⟨x ++ y, ⟨x, y, rfl, hx, hy⟩, hr.trans hr'⟩
  | alt a b iha ihb =>
    obtain ⟨ha, hb⟩ := Bool.and_eq_true_iff.1 ha
    rcases h with h | h
    · obtain ⟨s, hs, hr⟩ := iha ha h
      exact ⟨s, .inl hs, hr⟩
    · obtain ⟨s, hs, hr⟩ := ihb hb h
      exact ⟨s, .inr hs, hr⟩
  | rep a least most greedy ih =>
    obtain ⟨n, hl, hm, hT⟩ := h
    suffices hp : ∃ s, Pieces a.Spells n s ∧ k.Reads s l by
      obtain ⟨s, hs, hr⟩ := hp
      exact ⟨s, ⟨n, hl, hm, hs⟩, hr⟩
    clear hl hm
    induction n generalizing k t with
    | zero => exact ⟨[], rfl, hT.1 ▸ Cursor.Reads.refl k⟩
    | succ n ihn =>
      obtain ⟨m, v, h1, h2⟩ := hT
      obtain ⟨x, hx, hr⟩ := ih ha h1
      obtain ⟨y, hy, hr'⟩ := ihn h2
      exact ⟨x ++ y, ⟨x, y, rfl, hx, hy⟩, hr.trans hr'⟩

/-- A plain node spells what is read on a way through it. -/
theorem Way.spells_of_reads {a : Node} (ha : a.plain = true) {k l : Cursor} {t u : Trail} {s : Text}
    (h : a.Way k t l u) (hs : k.Reads s l) : a.Spells s := by
  obtain ⟨r, hr, hk⟩ := h.spells ha
  exact hs.unique hk ▸ hr

/-- A node without groups leaves the trail alone. -/
theorem Way.trail_eq {a : Node} (ha : a.groups = []) {k l : Cursor} {t u : Trail}
    (h : a.Way k t l u) : t = u := by
  induction a generalizing k t l u with
  | empty | literal _ | one _ => exact h.2
  | look _ => exact h.2.2
  | seq a b iha ihb =>
    obtain ⟨ha, hb⟩ := List.append_eq_nil_iff.1 ha
    obtain ⟨m, v, h1, h2⟩ := h
    exact (iha ha h1).trans (ihb hb h2)
  | alt a b iha ihb =>
    obtain ⟨ha, hb⟩ := List.append_eq_nil_iff.1 ha
    exact h.elim (iha ha) (ihb hb)
  | group => simp [groups] at ha
  | rep a least most greedy ih =>
    obtain ⟨n, -, -, hT⟩ := h
    induction n generalizing k t with
    | zero => exact hT.2
    | succ n ihn =>
      obtain ⟨m, v, h1, h2⟩ := hT
      exact (ih ha h1).trans (ihn h2)

/-- Repeated characters of a set. -/
theorem spells_rep_one {set : CharSet} {least : Nat} {most : Option Nat} {greedy : Bool} {s : Text}
    (h : (Node.rep (.one set) least most greedy).Spells s) :
    least ≤ s.length ∧ ∀ c ∈ s, set.contains c = true := by
  obtain ⟨n, hl, -, hp⟩ := h
  suffices hs : s.length = n ∧ ∀ c ∈ s, set.contains c = true from ⟨hs.1 ▸ hl, hs.2⟩
  clear hl
  induction n generalizing s with
  | zero =>
    obtain rfl : s = [] := hp
    simp
  | succ n ih =>
    obtain ⟨a, b, rfl, ⟨c, hc, rfl⟩, hb⟩ := hp
    obtain ⟨hlen, hall⟩ := ih hb
    exact ⟨by simp [hlen], List.forall_mem_cons.2 ⟨hc, hall⟩⟩

theorem spells_optional {a : Node} {greedy : Bool} {s : Text}
    (h : (Node.rep a 0 (some 1) greedy).Spells s) : s = [] ∨ a.Spells s := by
  obtain ⟨n, -, hn, hp⟩ := h
  have hn : n ≤ 1 := by simpa using hn
  match n, hp with
  | 0, hp => exact .inl hp
  | 1, hp =>
    obtain ⟨x, y, rfl, hx, hy⟩ := hp
    obtain rfl : y = [] := hy
    exact .inr (by simpa using hx)
  | n + 2, _ => omega

theorem spells_ofParts_cons {a : Node} {parts : List Node} {s : Text}
    (h : (Node.ofParts (a :: parts)).Spells s) :
    ∃ x y, s = x ++ y ∧ a.Spells x ∧ (Node.ofParts parts).Spells y := by
  cases parts with
  | nil => exact ⟨s, [], by simp, h, rfl⟩
  | cons b parts => exact h

end Node

section Parts

/-- The number of the group that a part is. -/
def Node.index? : Node → Option Nat
  | .group i _ _ => some i
  | _ => none

/-- What a part reads. -/
def Node.body : Node → Node
  | .group _ _ a => a
  | a => a

/-- Each part reads its text. -/
def Reading : List Node → Cursor → List Text → Cursor → Prop
  | [], k, [], l => k = l
  | a :: parts, k, s :: ss, l => ∃ m t, a.body.Way k t m t ∧ k.Reads s m ∧ Reading parts m ss l
  | _, _, _, _ => False

/-- The parts that are groups, with their texts. -/
def captured (parts : List Node) (ss : List Text) : List (Nat × Text) :=
  (parts.zip ss).filterMap fun (a, s) => a.index?.map (·, s)

theorem Reading.uncons {a : Node} {parts : List Node} {k l : Cursor} {ss : List Text}
    (h : Reading (a :: parts) k ss l) : ∃ s ss' m t, ss = s :: ss' ∧ a.body.Way k t m t ∧
      k.Reads s m ∧ Reading parts m ss' l := by
  cases ss with
  | nil => exact h.elim
  | cons s ss =>
    obtain ⟨m, t, hw, hr, hrest⟩ := h
    exact ⟨s, ss, m, t, rfl, hw, hr, hrest⟩

theorem Reading.eq_nil {k l : Cursor} {ss : List Text} (h : Reading [] k ss l) : ss = [] := by
  cases ss with
  | nil => rfl
  | cons => exact h.elim

theorem Reading.reads {parts : List Node} {k l : Cursor} {ss : List Text}
    (h : Reading parts k ss l) : k.Reads ss.flatten l := by
  induction parts generalizing k ss with
  | nil =>
    cases ss with
    | nil => exact h ▸ Cursor.Reads.refl k
    | cons => exact h.elim
  | cons a parts ih =>
    cases ss with
    | nil => exact h.elim
    | cons s ss =>
      obtain ⟨m, t, -, hr, hrest⟩ := h
      exact hr.trans (ih hrest)

theorem Reading.map_captured {parts : List Node} {k l : Cursor} {ss : List Text}
    (h : Reading parts k ss l) : (captured parts ss).map (·.1) = parts.filterMap Node.index? := by
  induction parts generalizing k ss with
  | nil => simp [captured]
  | cons a parts ih =>
    obtain ⟨s, ss, m, t, rfl, -, -, hrest⟩ := h.uncons
    have ih := ih hrest
    unfold captured at ih ⊢
    cases ha : a.index? with
    | none => simpa [ha] using ih
    | some i => simpa [ha] using ih

theorem lookup_note (i j : Nat) (k : Cursor) (marks : List (Nat × Cursor)) :
    (Trail.note i k marks).lookup j =
      if j = i then some ((marks.lookup i).getD k) else marks.lookup j := by
  unfold Trail.note
  by_cases hj : j = i
  · subst hj
    cases hm : marks.lookup j with
    | none => simp
    | some a => simp [hm]
  · rw [if_neg hj]
    split
    · rfl
    · rw [List.lookup_cons, beq_false_of_ne hj]

/-- The groups of the parts are noted in the trail `t`, and for the others it is as `u`. -/
structure Notes (parts : List Node) (ss : List Text) (t u : Trail) : Prop where
  own : ∀ i s, (i, s) ∈ captured parts ss →
    ∃ a b, t.starts.lookup i = some a ∧ t.stops.lookup i = some b ∧ a.Reads s b
  others : ∀ j ∉ parts.filterMap Node.index?,
    t.starts.lookup j = u.starts.lookup j ∧ t.stops.lookup j = u.stops.lookup j

/-- A way through one part reads its text and notes it if the part is a group. -/
theorem Node.Way.part {a : Node} (ha : a.body.groups = []) {k l : Cursor} {t u : Trail}
    (h : a.Way k t l u) (hu : ∀ i ∈ a.index?, u.starts.lookup i = none ∧ u.stops.lookup i = none) :
    ∃ s v, a.body.Way k v l v ∧ k.Reads s l ∧ Notes [a] [s] t u := by
  obtain ⟨s, hs⟩ := h.reads
  cases a with
  | group i name b =>
    obtain ⟨v, rfl, hb⟩ := h
    obtain rfl := hb.trail_eq ha
    obtain ⟨hstart, hstop⟩ := hu i rfl
    refine ⟨s, _, hb, hs, ⟨fun j r hj => ?_, fun j hj => ?_⟩⟩
    · obtain ⟨rfl, rfl⟩ : j = i ∧ r = s := by simpa [captured, index?] using hj
      exact ⟨k, l, by simp [Trail.opened, Trail.closed, lookup_note, hstart],
        by simp [Trail.opened, Trail.closed, lookup_note, hstop], hs⟩
    · have hji : j ≠ i := by simpa [index?] using hj
      simp [Trail.opened, Trail.closed, lookup_note, hji]
  | empty | literal _ | one _ | look _ | seq _ _ | alt _ _ | rep _ _ _ _ =>
    obtain rfl := h.trail_eq ha
    exact ⟨s, t, h, hs, by simp [captured, index?], fun _ _ => ⟨rfl, rfl⟩⟩

theorem way_ofParts_cons {a : Node} {parts : List Node} {k l : Cursor} {t u : Trail}
    (h : (Node.ofParts (a :: parts)).Way k t l u) :
    ∃ m v, a.Way k t m v ∧ (Node.ofParts parts).Way m v l u := by
  cases parts with
  | nil => exact ⟨l, u, h, rfl, rfl⟩
  | cons b parts => exact h

theorem mem_captured_cons {a : Node} {parts : List Node} {s : Text} {ss : List Text}
    {e : Nat × Text} (h : e ∈ captured (a :: parts) (s :: ss)) :
    e ∈ captured [a] [s] ∨ e ∈ captured parts ss := by
  cases ha : a.index? with
  | none => exact .inr (by simpa [captured, ha] using h)
  | some i => simpa [captured, ha] using h

theorem mem_index_of_captured {parts : List Node} {ss : List Text} {i : Nat} {s : Text}
    (h : (i, s) ∈ captured parts ss) : i ∈ parts.filterMap Node.index? := by
  obtain ⟨⟨a, r⟩, hmem, he⟩ := List.mem_filterMap.1 h
  obtain ⟨j, hj, he⟩ := Option.map_eq_some_iff.1 he
  obtain ⟨rfl, rfl⟩ := Prod.mk.inj he
  exact List.mem_filterMap.2 ⟨a, (List.of_mem_zip hmem).1, hj⟩

/-- A way through a sequence reads a text for each part and notes the groups. -/
theorem way_ofParts {parts : List Node} (hflat : ∀ a ∈ parts, a.body.groups = [])
    (hnodup : (parts.filterMap Node.index?).Nodup) {k l : Cursor} {t u : Trail}
    (h : (Node.ofParts parts).Way k t l u)
    (hu : ∀ i ∈ parts.filterMap Node.index?, u.starts.lookup i = none ∧ u.stops.lookup i = none) :
    ∃ ss, Reading parts k ss l ∧ Notes parts ss t u := by
  induction parts generalizing k t with
  | nil =>
    obtain ⟨rfl, rfl⟩ := h
    exact ⟨[], rfl, by simp [captured], fun _ _ => ⟨rfl, rfl⟩⟩
  | cons a parts ih =>
    obtain ⟨hfa, hfp⟩ := List.forall_mem_cons.1 hflat
    have hindices : (a :: parts).filterMap Node.index? =
        a.index?.toList ++ parts.filterMap Node.index? := by
      cases ha : a.index? <;> simp [ha]
    rw [hindices] at hnodup hu
    obtain ⟨-, hn, hdisjoint⟩ := List.nodup_append.1 hnodup
    obtain ⟨m, v, hway, hrest⟩ := way_ofParts_cons h
    obtain ⟨ss, hread, hnotes⟩ := ih hfp hn hrest fun i hi => hu i (by simp [hi])
    -- The parts behind note nothing for the number of this part.
    have hv : ∀ i ∈ a.index?, v.starts.lookup i = none ∧ v.stops.lookup i = none := by
      intro i hi
      have hmem : i ∈ a.index?.toList := by simpa using hi
      obtain ⟨h1, h2⟩ := hnotes.others i fun hi' => hdisjoint i hmem i hi' rfl
      rw [h1, h2]
      exact hu i (List.mem_append_left _ hmem)
    obtain ⟨s, w, hbody, hs, hnote⟩ := hway.part hfa hv
    refine ⟨s :: ss, ⟨m, w, hbody, hs, hread⟩, fun i r hi => ?_, fun j hj => ?_⟩
    · rcases mem_captured_cons hi with hi | hi
      · exact hnote.own i r hi
      · obtain ⟨b, c, hb, hc, hr⟩ := hnotes.own i r hi
        have hne : i ∉ [a].filterMap Node.index? := by
          intro hia
          refine hdisjoint i ?_ i (mem_index_of_captured hi) rfl
          cases ha : a.index? <;> simp_all
        obtain ⟨h1, h2⟩ := hnote.others i hne
        exact ⟨b, c, h1.trans hb, h2.trans hc, hr⟩
    · rw [hindices, List.mem_append, not_or] at hj
      have hja : j ∉ [a].filterMap Node.index? := by
        intro hmem
        refine hj.1 ?_
        cases ha : a.index? <;> simp_all
      obtain ⟨h1, h2⟩ := hnote.others j hja
      obtain ⟨h3, h4⟩ := hnotes.others j hj.2
      exact ⟨h1.trans h3, h2.trans h4⟩

end Parts
end SourceMend.Pattern
